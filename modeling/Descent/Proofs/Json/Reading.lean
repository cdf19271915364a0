import Descent.Json.Parser
import Descent.Json.Printer
import Descent.Proofs.Json.Tokens

/-!
Values read from their spelling. The machine that takes the tokens comes from where it awaits a
value to where it has the one that is spelled, whatever is open around it. What is printed spells
the value that it was printed from.
-/
namespace Descent.Json

variable {c : Char} {j : Json} {js : List Json} {m : Option String × Json}
  {ms members : List (Option String × Json)} {s t w rest rest' : List Char} {token : Token}

namespace Reader

variable {r : Reader} {frames : List Frame} {items : List Json}

/-- The machine after all tokens of a text. -/
def run (r : Reader) (text : List Char) : Option Reader :=
  (tokenize text).bind fun tokens => tokens.foldlM take r

@[simp] theorem run_nil : r.run [] = some r := by
  rw [run, tokenize]
  rfl

theorem run_space (h : isSpace c = true) : r.run (c :: rest) = r.run rest := by
  rw [run, tokenize, if_pos h]
  rfl

theorem run_token (hs : isSpace c = false) (ht : readToken c rest = some (token, rest')) :
    r.run (c :: rest) = (r.take token).bind fun r => r.run rest' := by
  have hcons : tokenize (c :: rest) = (tokenize rest').map (token :: ·) := by
    rw [tokenize, if_neg (by simp [hs])]
    split <;> simp_all
  rw [run, hcons]
  cases hrest : tokenize rest' with
  | none => cases r.take token <;> simp [run, hrest]
  | some tokens => simp [run, hrest, List.foldlM_cons]

theorem run_blanks (hw : Blanks w) : r.run (w ++ rest) = r.run rest := by
  induction w with
  | nil => rfl
  | cons c w ih =>
    obtain ⟨hc, hw⟩ := List.forall_mem_cons.mp hw
    rw [List.cons_append, run_space (by simpa [isSpace, or_assoc] using hc), ih hw]

theorem run_punctuation (hp : punctuation? c = some token) :
    r.run (c :: rest) = (r.take token).bind fun r => r.run rest := by
  refine run_token (Bool.eq_false_iff.mpr fun hs => ?_) ?_
  · have hc : ((c = ' ' ∨ c = '\t') ∨ c = '\n') ∨ c = '\r' := by simpa [isSpace] using hs
    rcases hc with ((rfl | rfl) | rfl) | rfl <;> cases hp
  · rw [readToken, hp]

/-- A value may stand here; `frames` is what is open around it. -/
structure AwaitsValue (r : Reader) (frames : List Frame) : Prop where
  atom (value : Json) : r.take (.atom value) = some ⟨.more value, frames⟩
  string (text : Option String) : r.take (.string text) = some ⟨.more (.string text), frames⟩
  openBracket : r.take .openBracket = some ⟨.item, frames⟩
  openBrace : r.take .openBrace = some ⟨.member, frames⟩

/-- A name may stand here, in an object that has the members given, the latest first. -/
def AwaitsName (r : Reader) (members : List (Option String × Json)) (frames : List Frame) : Prop :=
  ∀ name, r.take (.string name) = some ⟨.colon members name, frames⟩

theorem awaitsValue_value : AwaitsValue ⟨.value, frames⟩ frames :=
  ⟨fun _ => rfl, fun _ => rfl, rfl, rfl⟩

theorem awaitsValue_item : AwaitsValue ⟨.item, frames⟩ (.array [] :: frames) :=
  ⟨fun _ => rfl, fun _ => rfl, rfl, rfl⟩

theorem awaitsName_name : AwaitsName ⟨.name members, frames⟩ members frames := fun _ => rfl

theorem awaitsName_member : AwaitsName ⟨.member, frames⟩ [] frames := fun _ => rfl

theorem head?_blanks (hw : Blanks w) : ∀ d ∈ w.head?, isNumberChar d = false := by
  intro d hd
  have hb := hw d (List.mem_of_mem_head? hd)
  simp only [List.mem_cons, List.not_mem_nil, or_false] at hb
  rcases hb with rfl | rfl | rfl | rfl <;> rfl

/-- Blanks and a character that no number has end a number. -/
theorem head?_blanks_append (hw : Blanks w) (hc : isNumberChar c = false) :
    ∀ d ∈ (w ++ c :: rest).head?, isNumberChar d = false := by
  cases w with
  | nil =>
    intro d hd
    cases hd
    exact hc
  | cons b w =>
    intro d hd
    exact head?_blanks hw d hd

theorem run_string {name : Option String} (h : SpellsString name s) :
    r.run (s ++ rest) = (r.take (.string name)).bind fun r => r.run rest := by
  obtain ⟨body, rfl, ht⟩ := readToken_of_spellsString h rest
  exact run_token rfl ht

theorem run_number (h : NumberText s) (hr : ∀ c ∈ rest.head?, isNumberChar c = false) :
    r.run (s ++ rest) =
      (r.take (.atom (.number (String.ofList s)))).bind fun r => r.run rest := by
  obtain ⟨c, body, rfl, hc, ht⟩ := readToken_of_numberText h hr
  refine run_token ?_ ht
  rcases hc with hc | rfl
  · have hne (d : Char) (hd : d.isDigit = false) : c ≠ d := ne_of_isDigit hc hd
    simp [isSpace, hne ' ' rfl, hne '\t' rfl, hne '\n' rfl, hne '\r' rfl]
  · rfl

mutual

/-- What spells a value is taken as that value. -/
theorem run_spells {r : Reader} {frames : List Frame} {j : Json} {s : List Char} (h : Spells j s)
    (ha : r.AwaitsValue frames) (rest : List Char)
    (hr : ∀ c ∈ rest.head?, isNumberChar c = false) :
    r.run (s ++ rest) = Reader.run ⟨.more j, frames⟩ rest := by
  match h with
  | .null | .true | .false =>
    rw [List.cons_append, run_token rfl rfl, ha.atom]
    rfl
  | .number hn =>
    rw [run_number hn hr, ha.atom]
    rfl
  | .string ht =>
    rw [run_string ht, ha.string]
    rfl
  | .emptyArray hw =>
    rw [List.cons_append, run_punctuation rfl, ha.openBracket, Option.bind_some, List.append_assoc,
      run_blanks hw, List.singleton_append, run_punctuation rfl]
    rfl
  | .array hi =>
    rw [List.cons_append, run_punctuation rfl, ha.openBracket, Option.bind_some, List.append_assoc]
    exact run_spellsItems hi awaitsValue_item rest
  | .emptyObject hw =>
    rw [List.cons_append, run_punctuation rfl, ha.openBrace, Option.bind_some, List.append_assoc,
      run_blanks hw, List.singleton_append, run_punctuation rfl]
    rfl
  | .object hm =>
    rw [List.cons_append, run_punctuation rfl, ha.openBrace, Option.bind_some, List.append_assoc]
    exact run_spellsMembers hm awaitsName_member rest

theorem run_spellsItems {r : Reader} {frames : List Frame} {items js : List Json} {s : List Char}
    (h : SpellsItems js s) (ha : r.AwaitsValue (.array items :: frames)) (rest : List Char) :
    r.run (s ++ ']' :: rest) =
      Reader.run ⟨.more (.array (items.reverse ++ js)), frames⟩ rest := by
  match h with
  | .single (j := j) hb hj hafter =>
    rw [List.append_assoc, List.append_assoc, run_blanks hb,
      run_spells hj ha _ (head?_blanks_append hafter rfl), run_blanks hafter, run_punctuation rfl,
      ← List.reverse_cons]
    rfl
  | .cons (j := j) (t := t) hb hj hafter hrest =>
    rw [List.append_assoc, List.append_assoc, List.append_assoc, List.cons_append, run_blanks hb,
      run_spells hj ha _ (head?_blanks_append hafter rfl), run_blanks hafter, run_punctuation rfl]
    change Reader.run ⟨.value, .array (j :: items) :: frames⟩ (t ++ ']' :: rest) = _
    rw [run_spellsItems hrest awaitsValue_value, List.reverse_cons, List.append_assoc]
    rfl

theorem run_spellsMember {r : Reader} {frames : List Frame}
    {members : List (Option String × Json)} {m : Option String × Json} {s : List Char}
    (h : SpellsMember m s) (ha : r.AwaitsName members frames) (rest : List Char)
    (hr : ∀ c ∈ rest.head?, isNumberChar c = false) :
    r.run (s ++ rest) = Reader.run ⟨.more m.2, .object members m.1 :: frames⟩ rest := by
  match h with
  | @SpellsMember.mk name _ _ _ after s hn hb hafter hj =>
    rw [List.append_assoc, List.append_assoc, run_string hn, ha, Option.bind_some, run_blanks hb,
      List.cons_append, run_punctuation rfl]
    change Reader.run ⟨.value, .object members name :: frames⟩ ((after ++ s) ++ rest) = _
    rw [List.append_assoc, run_blanks hafter]
    exact run_spells hj awaitsValue_value rest hr

theorem run_spellsMembers {r : Reader} {frames : List Frame}
    {members ms : List (Option String × Json)} {s : List Char} (h : SpellsMembers ms s)
    (ha : r.AwaitsName members frames) (rest : List Char) :
    r.run (s ++ '}' :: rest) =
      Reader.run ⟨.more (.object (members.reverse ++ ms)), frames⟩ rest := by
  match h with
  | .single (m := m) hb hm hafter =>
    rw [List.append_assoc, List.append_assoc, run_blanks hb,
      run_spellsMember hm ha _ (head?_blanks_append hafter rfl), run_blanks hafter,
      run_punctuation rfl, ← List.reverse_cons]
    rfl
  | .cons (m := m) (t := t) hb hm hafter hrest =>
    rw [List.append_assoc, List.append_assoc, List.append_assoc, List.cons_append, run_blanks hb,
      run_spellsMember hm ha _ (head?_blanks_append hafter rfl), run_blanks hafter,
      run_punctuation rfl]
    change Reader.run ⟨.name (m :: members), frames⟩ (t ++ '}' :: rest) = _
    rw [run_spellsMembers hrest awaitsName_name, List.reverse_cons, List.append_assoc]
    rfl

end

end Reader

theorem parse?_eq_run (text : String) :
    parse? text = (Reader.start.run text.toList).bind Reader.result? := by
  rw [parse?, Reader.run, Option.bind_assoc]
  rfl

theorem reads_parse? : Reads parse? := by
  rintro j text ⟨before, s, after, hb, hs, ha, rfl⟩
  have hrun : Reader.start.run (before ++ (s ++ after)) = some ⟨.more j, []⟩ := by
    rw [Reader.start, Reader.run_blanks hb,
      Reader.run_spells hs Reader.awaitsValue_value after (Reader.head?_blanks ha)]
    rw [← List.append_nil after, Reader.run_blanks ha, Reader.run_nil]
  rw [parse?_eq_run, String.toList_ofList, hrun]
  rfl

theorem isHexDigit_hexDigit {n : Nat} (h : n < 16) : IsHexDigit (hexDigit n) n := by
  have hall : ∀ n < 16, hexDigit n = Nat.digitChar n := by decide
  exact ⟨h, Or.inl (hall n h)⟩

/-- A control is printed by its code. -/
theorem literal_control {us : List Nat} (hc : c.toNat < 0x20) (h : Literal us s) :
    Literal (utf16 c ++ us) ('\\' :: 'u' :: '0' :: '0' :: hexDigit (c.toNat / 16) ::
      hexDigit (c.toNat % 16) :: s) := by
  have hzero : IsHexDigit '0' 0 := isHexDigit_hexDigit (by decide)
  have hunit := Literal.unit hzero hzero (isHexDigit_hexDigit (show c.toNat / 16 < 16 by omega))
    (isHexDigit_hexDigit (show c.toNat % 16 < 16 by omega)) h
  have hvalue : ((0 * 16 + 0) * 16 + c.toNat / 16) * 16 + c.toNat % 16 = c.toNat := by omega
  rw [hvalue] at hunit
  rwa [utf16, if_pos (by omega)]

/-- A character is printed in one of the ways in which it can be written. -/
theorem literal_renderChar (c : Char) {us : List Nat} (h : Literal us s) :
    Literal (utf16 c ++ us) (renderChar c ++ s) := by
  unfold renderChar
  split
  · subst c
    exact .escape (by decide) h
  · rename_i hq
    split
    · subst c
      exact .escape (by decide) h
    · rename_i hb
      iterate 5
        split
        · subst c
          exact .escape (by decide) h
      split
      · exact literal_control ‹_› h
      · exact .plain (Nat.le_of_not_lt ‹_›) hq hb h

theorem literal_render (text : List Char) :
    Literal (text.flatMap utf16) (text.flatMap renderChar) := by
  induction text with
  | nil => exact .nil
  | cons c text ih => exact literal_renderChar c ih

theorem spellsString_renderString (text : String) :
    SpellsString (some text) (renderString (some text)) := by
  have ht := SpellsString.text (literal_render text.toList)
  rwa [String.ofList_toList] at ht

theorem spells_ofText (text : String) : Spells (ofText text) (ofText text).render := by
  rw [ofText, render]
  exact .string (spellsString_renderString text)

theorem blanks_nil : Blanks [] := nofun

theorem spellsItems_renderItems (j : Json) (js : List Json)
    (h : ∀ i ∈ j :: js, Spells i i.render) : SpellsItems (j :: js) (renderItems (j :: js)) := by
  induction js generalizing j with
  | nil =>
    have hs := SpellsItems.single blanks_nil (h j List.mem_cons_self) blanks_nil
    rwa [List.nil_append, List.append_nil] at hs
  | cons k js ih =>
    obtain ⟨hj, hjs⟩ := List.forall_mem_cons.mp h
    rw [renderItems]
    · exact .cons blanks_nil hj blanks_nil (ih k hjs)
    · nofun

theorem spells_ofList {α : Type} {write : α → Json} {xs : List α}
    (h : ∀ x ∈ xs, Spells (write x) (write x).render) :
    Spells (ofList write xs) (ofList write xs).render := by
  rw [ofList, render]
  cases xs with
  | nil => exact .emptyArray blanks_nil
  | cons x xs =>
    have hitems : ∀ j ∈ (x :: xs).map write, Spells j j.render := List.forall_mem_map.mpr h
    exact .array (spellsItems_renderItems _ _ hitems)

theorem spellsMember_renderMember {name : String} (h : Spells j j.render) :
    SpellsMember (some name, j) (renderMember (some name, j)) := by
  rw [renderMember]
  exact .mk (spellsString_renderString name) blanks_nil blanks_nil h

theorem spellsMembers_renderMembers (m : Option String × Json) (ms : List (Option String × Json))
    (h : ∀ n ∈ m :: ms, SpellsMember n (renderMember n)) :
    SpellsMembers (m :: ms) (renderMembers (m :: ms)) := by
  induction ms generalizing m with
  | nil =>
    have hs := SpellsMembers.single blanks_nil (h m List.mem_cons_self) blanks_nil
    rwa [List.nil_append, List.append_nil] at hs
  | cons n ms ih =>
    obtain ⟨hm, hms⟩ := List.forall_mem_cons.mp h
    rw [renderMembers]
    · exact .cons blanks_nil hm blanks_nil (ih n hms)
    · nofun

theorem spells_record {ms : List (String × Json)} (h : ∀ m ∈ ms, Spells m.2 m.2.render) :
    Spells (record ms) (record ms).render := by
  rw [record, render]
  cases ms with
  | nil => exact .emptyObject blanks_nil
  | cons m ms =>
    have hmembers : ∀ n ∈ (m :: ms).map (fun member => (some member.1, member.2)),
        SpellsMember n (renderMember n) :=
      List.forall_mem_map.mpr fun m hm => spellsMember_renderMember (h m hm)
    exact .object (spellsMembers_renderMembers _ _ hmembers)

/-- The text of a value spells it if what is printed of it does. -/
theorem spellsText_toText (h : Spells j j.render) : SpellsText j j.toText :=
  ⟨[], j.render, [], blanks_nil, h, blanks_nil, by simp [toText]⟩

end Descent.Json
