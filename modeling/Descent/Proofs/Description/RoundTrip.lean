import Descent.Proofs.Json.Reading
import Descent.Proofs.Json.Records

/-!
Descriptions written in JSON and read back. `Written` says which values hold a description, each of
its records as an object or as an array and with or without what may be left out. Reading gets the
description back from all of them, and what is printed is one of them.
-/
namespace Descent

open Json

namespace CommentStyle

/-- The values that hold a comment style; likewise of the other records below. -/
def Written (s : CommentStyle) : Json → Prop :=
  IsRecord [.text "begin" s.opening, .text "end" s.closing]

theorem ofJson?_of_written (s : CommentStyle) (j : Json) (h : s.Written j) :
    ofJson? j = some s := by
  obtain ⟨field, hfields, hb, he⟩ := texts_of_isRecord (by decide) h
  simp [ofJson?, hfields, hb, he]

theorem written_toJson (s : CommentStyle) : s.Written s.toJson :=
  isRecord_record (.present rfl (.present rfl .nil))

theorem spells_toJson (s : CommentStyle) : Spells s.toJson s.toJson.render :=
  spells_record (by simp [spells_ofText])

end CommentStyle

namespace Substitution

def Written (s : Substitution) : Json → Prop :=
  IsRecord [.text "if_found" s.found, .text "replace_by" s.replacement]

theorem ofJson?_of_written (s : Substitution) (j : Json) (h : s.Written j) :
    ofJson? j = some s := by
  obtain ⟨field, hfields, hf, hr⟩ := texts_of_isRecord (by decide) h
  simp [ofJson?, hfields, hf, hr]

theorem written_toJson (s : Substitution) : s.Written s.toJson :=
  isRecord_record (.present rfl (.present rfl .nil))

theorem spells_toJson (s : Substitution) : Spells s.toJson s.toJson.render :=
  spells_record (by simp [spells_ofText])

end Substitution

namespace RuleText

def Written (r : RuleText) : Json → Prop :=
  IsRecord [.text "non_terminal" r.name, .text "can_be" r.body]

theorem ofJson?_of_written (r : RuleText) (j : Json) (h : r.Written j) : ofJson? j = some r := by
  obtain ⟨field, hfields, hn, hb⟩ := texts_of_isRecord (by decide) h
  simp [ofJson?, hfields, hn, hb]

theorem written_toJson (r : RuleText) : r.Written r.toJson :=
  isRecord_record (.present rfl (.present rfl .nil))

theorem spells_toJson (r : RuleText) : Spells r.toJson r.toJson.render :=
  spells_record (by simp [spells_ofText])

end RuleText

namespace LexicalRules

def Written (r : LexicalRules) : Json → Prop :=
  IsRecord [.list "reserved_words" IsText r.words, .list "separators" IsText r.separators,
    .list "comments" CommentStyle.Written r.comments,
    .list "rewrites" Substitution.Written r.substitutions]

theorem ofJson?_of_written (r : LexicalRules) (j : Json) (h : r.Written j) :
    ofJson? j = some r := by
  obtain ⟨field, hfields, hfound⟩ := fields?_of_isRecord
    ["reserved_words", "separators", "comments", "rewrites"] rfl (by decide) h
  simp only [List.forall_mem_cons] at hfound
  obtain ⟨hw, hs, hc, hr, -⟩ := hfound
  simp [ofJson?, hfields, optional_list text?_of_isText hw, optional_list text?_of_isText hs,
    optional_list CommentStyle.ofJson?_of_written hc,
    optional_list Substitution.ofJson?_of_written hr]

theorem written_toJson (r : LexicalRules) : r.Written r.toJson :=
  isRecord_record <|
    .present (isList_ofList isText_ofText _) <|
    .present (isList_ofList isText_ofText _) <|
    .present (isList_ofList CommentStyle.written_toJson _) <|
    .present (isList_ofList Substitution.written_toJson _) .nil

theorem spells_toJson (r : LexicalRules) : Spells r.toJson r.toJson.render :=
  spells_record (by simp [spells_ofText, spells_ofList, CommentStyle.spells_toJson,
    Substitution.spells_toJson])

end LexicalRules

namespace GrammarText

def Written (g : GrammarText) : Json → Prop :=
  IsRecord [.text "main_rule" g.main, .list "rules" RuleText.Written g.rules]

theorem ofJson?_of_written (g : GrammarText) (j : Json) (h : g.Written j) :
    ofJson? j = some g := by
  obtain ⟨field, hfields, hfound⟩ :=
    fields?_of_isRecord ["main_rule", "rules"] rfl (by decide) h
  simp only [List.forall_mem_cons] at hfound
  obtain ⟨hm, hr, -⟩ := hfound
  simp [ofJson?, hfields, required_text hm, optional_list RuleText.ofJson?_of_written hr]

theorem written_toJson (g : GrammarText) : g.Written g.toJson :=
  isRecord_record (.present rfl (.present (isList_ofList RuleText.written_toJson _) .nil))

theorem spells_toJson (g : GrammarText) : Spells g.toJson g.toJson.render :=
  spells_record (by simp [spells_ofText, spells_ofList, RuleText.spells_toJson])

end GrammarText

namespace Description

variable {d : Description} {j : Json}

def Written (d : Description) : Json → Prop :=
  IsRecord [⟨"lexer", d.lexical = {}, d.lexical.Written⟩, ⟨"grammar", False, d.grammar.Written⟩]

theorem ofJson?_of_written (h : d.Written j) : ofJson? j = some d := by
  obtain ⟨field, hfields, hfound⟩ := fields?_of_isRecord ["lexer", "grammar"] rfl (by decide) h
  simp only [List.forall_mem_cons] at hfound
  obtain ⟨hl, hg, -⟩ := hfound
  have hlexical := optional_of_found hl id d.lexical.ofJson?_of_written
  have hgrammar := required_of_found hg id d.grammar.ofJson?_of_written
  simp [ofJson?, hfields, hlexical, hgrammar]

theorem written_toJson (d : Description) : d.Written d.toJson :=
  isRecord_record (.present d.lexical.written_toJson (.present d.grammar.written_toJson .nil))

theorem spells_toJson (d : Description) : Spells d.toJson d.toJson.render :=
  spells_record (by simp [LexicalRules.spells_toJson, GrammarText.spells_toJson])

/-- A description is read back from every text of every value that holds it, whoever reads the text.
What is printed of a description is such a text. -/
theorem read_back (d : Description) :
    (∀ read? : String → Option Json, Reads read? → ∀ (j : Json) (text : String), d.Written j →
      SpellsText j text → (read? text).bind ofJson? = some d) ∧
    d.Written d.toJson ∧ SpellsText d.toJson d.toJson.toText ∧ Reads parse? ∧
    (∀ (j : Json) (text : String), d.Written j → SpellsText j text → ofText? text = some d) ∧
    ofText? d.toJson.toText = some d := by
  have hread (read? : String → Option Json) (hr : Reads read?) (j : Json) (text : String)
      (hj : d.Written j) (ht : SpellsText j text) : (read? text).bind ofJson? = some d := by
    rw [hr j text ht, Option.bind_some, ofJson?_of_written hj]
  have hprinted : SpellsText d.toJson d.toJson.toText := spellsText_toText d.spells_toJson
  exact ⟨hread, d.written_toJson, hprinted, reads_parse?, hread parse? reads_parse?,
    hread parse? reads_parse? _ _ d.written_toJson hprinted⟩

/-- The grammar before the lexer, of which an unknown member is given, and a rule as an array. -/
theorem read_back_reordered :
    let d : Description := { grammar := { main := "A", rules := [⟨"A", "a"⟩] } }
    let text :=
      "\x7b\"grammar\": [\"\\u0041\",[[\"A\",\"a\"]]],\"lexer\":\x7b\"more\":-1\x7d\x7d"
    ∃ j, d.Written j ∧ SpellsText j text ∧ (parse? text).bind ofJson? = some d := by
  intro d text
  have hzero : IsHexDigit '0' 0 := isHexDigit_hexDigit (by decide)
  have hfour : IsHexDigit '4' 4 := isHexDigit_hexDigit (by decide)
  have hone : IsHexDigit '1' 1 := isHexDigit_hexDigit (by decide)
  have hmain : SpellsString (some "A") _ := .text (t := ['A']) (.unit hzero hzero hfour hone .nil)
  have hrule := Spells.array <|
    .cons blanks_nil (spells_ofText "A") blanks_nil <|
    .single blanks_nil (spells_ofText "a") blanks_nil
  have hrules := Spells.array (.single blanks_nil hrule blanks_nil)
  have hgrammar := Spells.array <|
    .cons blanks_nil (.string hmain) blanks_nil (.single blanks_nil hrules blanks_nil)
  have hdigits : Digits ['1'] ∧ ['1'].head? ≠ some '0' := ⟨.singleton rfl, by decide⟩
  have hnumber := Spells.number (.mk (.inr rfl) (.inr hdigits) (.inl rfl) (.inl rfl))
  have hlexer := Spells.object <|
    .single blanks_nil (.mk (spellsString_renderString "more") blanks_nil blanks_nil hnumber)
      blanks_nil
  have hspace : Blanks [' '] := by simp [Blanks]
  have hwhole := Spells.object <|
    .cons blanks_nil (.mk (spellsString_renderString "grammar") blanks_nil hspace hgrammar)
      blanks_nil <|
    .single blanks_nil (.mk (spellsString_renderString "lexer") blanks_nil blanks_nil hlexer)
      blanks_nil
  have hpair : RuleText.Written ⟨"A", "a"⟩ _ := .array (.cons rfl (.cons rfl (.nil nofun)))
  obtain ⟨j, htext, hwritten⟩ : ∃ j, SpellsText j text ∧ d.Written j := by
    refine ⟨_, ⟨[], _, [], blanks_nil, hwhole, blanks_nil, rfl⟩, ?_⟩
    refine .ofPerm (.present ?_ (.present (.array ?_) .nil)) (.swap _ _ _)
    · refine .object (.absent rfl (.absent rfl (.absent rfl (.absent rfl .nil)))) ?_ (.refl _)
      simp [Field.list]
    · exact .cons rfl (.cons ⟨_, rfl, .cons hpair .nil⟩ (.nil nofun))
  exact ⟨j, hwritten, htext, (read_back d).1 parse? reads_parse? j text hwritten htext⟩

end Description

end Descent
