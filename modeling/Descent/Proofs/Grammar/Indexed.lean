import Descent.Proofs.Grammar.Acceptance

/-!
Grammars by handles. The rules stand in an array, a hash map keeps the handle of each name, and
items refer to rules by their handles. Such a grammar, with each handle spelled out as the name of
its rule, is the one that the same text compiles to.
-/
namespace Descent

open Grammar (Fault LexicalClass declared)

namespace IndexedGrammar

inductive Item where
  | terminal (text : String)
  | lexical (c : LexicalClass)
  /-- A reference to a rule by its handle, which is its place among the rules. -/
  | rule (handle : Nat)
  | many (body : List Item)

/-- The item that has to match the first lexeme, looked for inside repetitions. -/
def Item.first? : Item → Option Item
  | .many [] => none
  | .many (i :: _) => i.first?
  | i => some i

def first? (items : List Item) : Option Item := items.head?.bind Item.first?

structure Variant where
  items : List Item
  text : String

def Variant.isBare (v : Variant) : Bool :=
  match v.items with
  | [.terminal _] => true
  | _ => false

structure Rule where
  name : String
  variants : List Variant

end IndexedGrammar

/-- Rules in the order of their declaration, the handles of their names, and that of the main
rule. -/
structure IndexedGrammar where
  rules : Array IndexedGrammar.Rule
  names : Std.HashMap String Nat
  main : Nat

namespace IndexedGrammar

/-- What the text of a rule may refer to. -/
structure Scope where
  rule : String
  names : Std.HashMap String Nat
  lexicon : Lexicon

namespace Scope

/-- The item of a token that is no bracket. -/
def item (s : Scope) (token : String) : Except Fault Item :=
  match Grammar.referenced? token with
  | some name =>
    match LexicalClass.ofName? name with
    | some c => .ok (.lexical c)
    | none =>
      match s.names[name]? with
      | some handle => .ok (.rule handle)
      | none => .error (.unknownNonterminal s.rule name)
  | none =>
    if (s.lexicon.terminal? token).isSome then .ok (.terminal token)
    else .error (.unknownTerminal s.rule token)

/-- The items of a list of tokens. -/
def items (s : Scope) (tokens : List String) : Except Fault (List Item) :=
  match tokens with
  | [] => .ok []
  | token :: rest =>
    if token = "[" then
      match _h : Grammar.splitClosing 0 rest with
      | none => .error (.malformed s.rule .unclosedBracket)
      | some (inner, after) =>
        if inner.isEmpty then .error (.malformed s.rule .emptyRepetition)
        else do
          let body ← s.items inner
          let others ← s.items after
          return .many body :: others
    else if token = "]" then .error (.malformed s.rule .unopenedBracket)
    else do
      let first ← s.item token
      let others ← s.items rest
      return first :: others
termination_by tokens.length
decreasing_by
  · have := Grammar.length_splitClosing _h
    rw [List.length_cons]
    omega
  · have := Grammar.length_splitClosing _h
    rw [List.length_cons]
    omega
  · simp

def variant (s : Scope) (text : List Char) : Except Fault Variant :=
  let tokens := Grammar.tokens text
  if tokens.isEmpty then .error (.malformed s.rule .emptyVariant)
  else (s.items tokens).map (⟨·, " ".intercalate tokens⟩)

end Scope

/-- Adds a rule without variants under its name, which must be new. -/
def declare : Array Rule × Std.HashMap String Nat → RuleText →
    Except Fault (Array Rule × Std.HashMap String Nat)
  | (rules, names), t =>
    let name := Text.trim t.name
    if names.contains name then .error (.duplicateRule name)
    else .ok (rules.push ⟨name, []⟩, names.insert name rules.size)

/-- Gives the rule that has been declared its variants. -/
def fill (names : Std.HashMap String Nat) (lexicon : Lexicon) (rules : Array Rule) :
    RuleText × Nat → Except Fault (Array Rule)
  | (t, handle) => do
    let scope : Scope := ⟨(rules[handle]?).elim "" Rule.name, names, lexicon⟩
    let variants ← (t.body.toList.splitOn '|').mapM scope.variant
    return rules.modify handle fun r => { r with variants }

/-- The grammar of a text. All rules are declared first, so that they may refer to later ones. -/
def compile (lexicon : Lexicon) (text : GrammarText) : Except Fault IndexedGrammar := do
  let (rules, names) ← text.rules.foldlM declare (#[], ∅)
  let rules ← text.rules.zipIdx.foldlM (fill names lexicon) rules
  let main := Text.trim text.main
  match names[main]? with
  | some handle => return ⟨rules, names, handle⟩
  | none => .error (.missingMain main)

/-- The hash map has the place of each name in a list, and of no other. -/
def Lists (names : Std.HashMap String Nat) (list : List String) : Prop :=
  ∀ (name : String) (handle : Nat), names[name]? = some handle ↔ list[handle]? = some name

/-- Items by handles and the same items by the names that stand at the handles in a list. -/
inductive Spells (list : List String) : List Item → List Grammar.Item → Prop
  | nil : Spells list [] []
  | terminal {text : String} {is : List Item} {js : List Grammar.Item} (h : Spells list is js) :
      Spells list (.terminal text :: is) (.terminal text :: js)
  | lexical {c : LexicalClass} {is : List Item} {js : List Grammar.Item} (h : Spells list is js) :
      Spells list (.lexical c :: is) (.lexical c :: js)
  | rule {handle : Nat} {name : String} {is : List Item} {js : List Grammar.Item}
      (hn : list[handle]? = some name) (h : Spells list is js) :
      Spells list (.rule handle :: is) (.rule name :: js)
  | many {body is : List Item} {body' js : List Grammar.Item} (hb : Spells list body body')
      (h : Spells list is js) : Spells list (.many body :: is) (.many body' :: js)

structure Variant.Spells (list : List String) (v : Variant) (w : Grammar.Variant) : Prop where
  items : IndexedGrammar.Spells list v.items w.items
  text : v.text = w.text

structure Rule.Spells (list : List String) (r : Rule) (q : Grammar.Rule) : Prop where
  name : r.name = q.name
  variants : List.Forall₂ (Variant.Spells list) r.variants q.variants

end IndexedGrammar

/-- The names of the rules in order. -/
def Grammar.names (g : Grammar) : List String := g.rules.map Grammar.Rule.name

open IndexedGrammar (Lists) in
/-- A grammar by handles and the same grammar by names. -/
structure IndexedGrammar.SpellsOut (g : IndexedGrammar) (q : Grammar) : Prop where
  names : Lists g.names q.names
  rules : List.Forall₂ (Rule.Spells q.names) g.rules.toList q.rules
  main : q.names[g.main]? = some q.main

namespace IndexedGrammar

variable {names : Std.HashMap String Nat} {list : List String} {lexicon : Lexicon}
  {text : GrammarText} {g : IndexedGrammar} {s : Scope}

namespace Lists

theorem empty : Lists ∅ [] := by
  intro name handle
  simp

theorem isSome_iff (h : Lists names list) {name : String} :
    (names[name]?).isSome ↔ name ∈ list := by
  rw [Option.isSome_iff_exists, List.mem_iff_getElem?]
  exact exists_congr fun handle => h name handle

theorem nodup (h : Lists names list) : list.Nodup := by
  refine List.nodup_iff_getElem?_ne_getElem?.mpr fun i j hij hlt he => ?_
  have hj : list[j]? = some list[j] := List.getElem?_eq_getElem hlt
  have hsame := ((h _ i).mpr (he.trans hj)).symm.trans ((h _ j).mpr hj)
  have heq := Option.some.inj hsame
  omega

theorem insert (h : Lists names list) {name : String} (hn : name ∉ list) :
    Lists (names.insert name list.length) (list ++ [name]) := by
  intro other handle
  rw [Std.HashMap.getElem?_insert, List.getElem?_append]
  by_cases hlt : handle < list.length
  · rw [if_pos hlt]
    by_cases hname : name = other
    · subst hname
      have hne : list.length ≠ handle := by omega
      have hother : list[handle]? ≠ some name := fun hm => hn (List.mem_of_getElem? hm)
      simp [hne, hother]
    · simp [hname, h other handle]
  · rw [if_neg hlt]
    by_cases hname : name = other
    · subst hname
      simp [List.getElem?_singleton]
      omega
    · have hold : names[other]? ≠ some handle := by
        intro ho
        have hm := (h other handle).mp ho
        rw [List.getElem?_eq_none (by omega)] at hm
        cases hm
      simp [hname, hold, List.getElem?_singleton]

end Lists

namespace Scope

theorem concur_item (hl : Lists s.names list) (token : String) :
    Concur Eq (fun i j => IndexedGrammar.Spells list [i] [j]) (s.item token)
      (Grammar.Scope.item ⟨s.rule, list, s.lexicon⟩ token) := by
  unfold item Grammar.Scope.item
  cases Grammar.referenced? token with
  | none =>
    dsimp only
    split
    · exact .ok (.terminal .nil)
    · exact .error rfl
  | some name =>
    dsimp only
    cases LexicalClass.ofName? name with
    | some c => exact .ok (.lexical .nil)
    | none =>
      dsimp only
      have hmem : (s.names[name]?).isSome ↔ name ∈ list := hl.isSome_iff
      cases hn : s.names[name]? with
      | none =>
        have hnot : name ∉ list := by simpa [hn] using hmem
        rw [if_neg hnot]
        exact .error rfl
      | some handle =>
        have hin : name ∈ list := by simpa [hn] using hmem
        rw [if_pos hin]
        exact .ok (.rule ((hl name handle).mp hn) .nil)

theorem spells_cons {i : Item} {j : Grammar.Item} {is : List Item} {js : List Grammar.Item}
    (hi : IndexedGrammar.Spells list [i] [j]) (h : IndexedGrammar.Spells list is js) :
    IndexedGrammar.Spells list (i :: is) (j :: js) := by
  cases hi with
  | terminal => exact .terminal h
  | lexical => exact .lexical h
  | rule hn => exact .rule hn h
  | many hb => exact .many hb h

theorem concur_items (hl : Lists s.names list) (tokens : List String) :
    Concur Eq (IndexedGrammar.Spells list) (s.items tokens)
      (Grammar.Scope.items ⟨s.rule, list, s.lexicon⟩ tokens) := by
  fun_induction Scope.items s tokens with
  | case1 =>
    rw [Grammar.Scope.items]
    exact .ok .nil
  | case2 rest hc =>
    rw [Grammar.Scope.items, if_pos rfl]
    split
    · exact .error rfl
    · simp_all
  | case3 rest inner after hc he =>
    rw [Grammar.Scope.items, if_pos rfl]
    split
    · simp_all
    · rename_i h
      obtain ⟨rfl, rfl⟩ := Prod.mk.inj (Option.some.inj (hc.symm.trans h))
      rw [if_pos he]
      exact .error rfl
  | case4 rest inner after hc he ihi iha =>
    rw [Grammar.Scope.items, if_pos rfl]
    split
    · simp_all
    · rename_i h
      obtain ⟨rfl, rfl⟩ := Prod.mk.inj (Option.some.inj (hc.symm.trans h))
      rw [if_neg he]
      refine ihi.bind fun body body' hb => ?_
      refine iha.bind fun others others' ho => ?_
      exact .ok (.many hb ho)
  | case5 =>
    rw [Grammar.Scope.items, if_neg (by decide), if_pos rfl]
    exact .error rfl
  | case6 token rest hopen hclose ih =>
    rw [Grammar.Scope.items, if_neg hopen, if_neg hclose]
    refine (concur_item hl token).bind fun i j hi => ?_
    refine ih.bind fun others others' ho => ?_
    exact .ok (spells_cons hi ho)

theorem concur_variant (hl : Lists s.names list) (text : List Char) :
    Concur Eq (Variant.Spells list) (s.variant text)
      (Grammar.Scope.variant ⟨s.rule, list, s.lexicon⟩ text) := by
  unfold variant Grammar.Scope.variant
  dsimp only
  split
  · exact .error rfl
  · exact (concur_items hl _).map fun _ _ h => ⟨h, rfl⟩

end Scope

/-- The rule of a text when it has been declared. -/
def blank (t : RuleText) : Rule := ⟨Text.trim t.name, []⟩

/-- The texts are declared one after the other, up to a name that is there already. -/
theorem foldlM_declare (rules : List Rule) (seen : List String) (texts : List RuleText)
    (hl : Lists names (rules.map Rule.name))
    (hs : ∀ name, name ∈ seen ↔ name ∈ rules.map Rule.name) :
    match Grammar.firstRepeat? seen (texts.map fun t => Text.trim t.name) with
    | some name => texts.foldlM declare (rules.toArray, names) = .error (.duplicateRule name)
    | none => ∃ names', texts.foldlM declare (rules.toArray, names) =
        .ok ((rules ++ texts.map blank).toArray, names') ∧
        Lists names' (rules.map Rule.name ++ texts.map fun t => Text.trim t.name) := by
  induction texts generalizing rules names seen with
  | nil => exact ⟨names, by simp [pure, Except.pure], by simpa using hl⟩
  | cons t texts ih =>
    have hmem : names.contains (Text.trim t.name) = true ↔
        Text.trim t.name ∈ rules.map Rule.name := by
      rw [Std.HashMap.contains_eq_isSome_getElem?]
      exact hl.isSome_iff
    rw [List.map_cons, Grammar.firstRepeat?, List.foldlM_cons, declare]
    by_cases hseen : Text.trim t.name ∈ seen
    · rw [if_pos hseen, if_pos (hmem.mpr ((hs _).mp hseen))]
      rfl
    · have hnew : Text.trim t.name ∉ rules.map Rule.name := mt (hs _).mpr hseen
      have hlists : Lists (names.insert (Text.trim t.name) rules.toArray.size)
          ((rules ++ [blank t]).map Rule.name) := by
        have hinsert := hl.insert hnew
        rw [List.length_map] at hinsert
        simpa [blank] using hinsert
      have hrest := ih (rules ++ [blank t]) (Text.trim t.name :: seen) hlists (by
        intro name
        simp [hs, blank, or_comm])
      rw [if_neg hseen, if_neg (mt hmem.mp hnew)]
      simpa [blank, bind, Except.bind] using hrest

theorem fill_eq {filled rest : List Rule} {t : RuleText} {r : Rule} :
    fill names lexicon (filled ++ r :: rest).toArray (t, filled.length) =
      ((t.body.toList.splitOn '|').mapM (Scope.variant ⟨r.name, names, lexicon⟩)).map
        fun variants => (filled ++ { r with variants } :: rest).toArray := by
  have hrule : (filled ++ r :: rest).toArray[filled.length]? = some r := by simp
  have hmodify (f : Rule → Rule) : (filled ++ r :: rest).toArray.modify filled.length f =
      (filled ++ f r :: rest).toArray := by
    simp [List.modify_eq_take_drop]
  rw [fill, hrule]
  simp only [Option.elim_some, hmodify]
  rfl

/-- The variants follow, one rule after the other. -/
theorem concur_fill (hl : Lists names list) (lexicon : Lexicon) (texts : List RuleText)
    (filled : List Rule) (filled' : List Grammar.Rule)
    (hf : List.Forall₂ (Rule.Spells list) filled filled') :
    Concur Eq (fun rules rules' =>
        List.Forall₂ (Rule.Spells list) rules.toList (filled' ++ rules') ∧
          rules'.map Grammar.Rule.name = texts.map fun t => Text.trim t.name)
      ((texts.zipIdx filled.length).foldlM (fill names lexicon)
        (filled ++ texts.map blank).toArray)
      (texts.mapM (Grammar.compileRule list lexicon)) := by
  induction texts generalizing filled filled' with
  | nil => exact .ok ⟨by simpa using hf, rfl⟩
  | cons t texts ih =>
    have hscope : Lists (Scope.mk (Text.trim t.name) names lexicon).names list := hl
    have hrule : Concur Eq (fun rules r => ∃ q, rules = (filled ++ q :: texts.map blank).toArray ∧
        Rule.Spells list q r ∧ r.name = Text.trim t.name)
        (fill names lexicon (filled ++ blank t :: texts.map blank).toArray (t, filled.length))
        (Grammar.compileRule list lexicon t) := by
      rw [fill_eq, Grammar.compileRule]
      exact (concur_mapM (Scope.concur_variant hscope) _).map
        fun vs ws h => ⟨_, rfl, ⟨rfl, h⟩, rfl⟩
    rw [List.zipIdx_cons, List.map_cons, List.foldlM_cons, List.mapM_cons]
    refine hrule.bind fun rules r hr => ?_
    obtain ⟨q, rfl, hq, hname⟩ := hr
    have hnext := ih _ _ (List.rel_append hf (.cons hq .nil))
    rw [List.length_append, List.length_singleton, List.append_assoc, List.singleton_append]
      at hnext
    generalize (texts.zipIdx (filled.length + 1)).foldlM (fill names lexicon)
      (filled ++ q :: texts.map blank).toArray = filling at hnext ⊢
    generalize texts.mapM (Grammar.compileRule list lexicon) = compiled at hnext ⊢
    cases hnext with
    | error h => exact .error h
    | ok h =>
      obtain ⟨hspells, hnames⟩ := h
      refine .ok ⟨by simpa using hspells, ?_⟩
      rw [List.map_cons, hname, hnames]

/-- A text compiles to a grammar by handles and to one by names, and the former spells out the
latter; or it does neither, for the same reason. -/
theorem concur_compile (lexicon : Lexicon) (text : GrammarText) :
    Concur Eq SpellsOut (compile lexicon text) (Grammar.compile lexicon text) := by
  have hdeclared := foldlM_declare [] [] text.rules Lists.empty (by simp)
  rw [← declared, List.map_nil, List.nil_append, List.nil_append] at hdeclared
  rw [compile, Grammar.compile, ← declared]
  cases hrepeat : Grammar.firstRepeat? [] (declared text) with
  | some name =>
    rw [hrepeat] at hdeclared
    rw [show text.rules.foldlM declare (#[], ∅) = _ from hdeclared]
    exact .error rfl
  | none =>
    rw [hrepeat] at hdeclared
    obtain ⟨names, hfold, hl⟩ := hdeclared
    rw [show text.rules.foldlM declare (#[], ∅) = _ from hfold]
    refine (concur_fill hl lexicon text.rules [] [] .nil).bind fun rules rules' hr => ?_
    obtain ⟨hspells, hnames⟩ := hr
    rw [← declared] at hnames
    rw [List.nil_append, ← hnames] at hspells
    rw [← hnames] at hl ⊢
    dsimp only
    have hmain : (names[Text.trim text.main]?).isSome ↔ _ := hl.isSome_iff
    cases hm : names[Text.trim text.main]? with
    | none =>
      have hnot : Text.trim text.main ∉ rules'.map Grammar.Rule.name := by simpa [hm] using hmain
      rw [if_neg hnot]
      exact .error rfl
    | some main =>
      have hin : Text.trim text.main ∈ rules'.map Grammar.Rule.name := by simpa [hm] using hmain
      rw [if_pos hin]
      exact .ok ⟨hl, hspells, (hl _ _).mp hm⟩

theorem exists_spelled (h : compile lexicon text = .ok g) :
    ∃ q, Grammar.compile lexicon text = .ok q ∧ g.SpellsOut q := by
  have hc := concur_compile lexicon text
  rw [h] at hc
  exact hc.exists_right

theorem exists_spelling {q : Grammar} (h : Grammar.compile lexicon text = .ok q) :
    ∃ g, compile lexicon text = .ok g ∧ g.SpellsOut q := by
  have hc := concur_compile lexicon text
  rw [h] at hc
  exact hc.exists_left

/-- At a handle stands the rule whose name it spells. -/
theorem SpellsOut.rule {q : Grammar} (h : g.SpellsOut q) {handle : Nat} {name : String}
    (hn : q.names[handle]? = some name) : ∃ r p, g.rules[handle]? = some r ∧
      q.rules[handle]? = some p ∧ Rule.Spells q.names r p ∧ p.name = name := by
  rw [Grammar.names, List.getElem?_map, Option.map_eq_some_iff] at hn
  obtain ⟨p, hp, hname⟩ := hn
  obtain ⟨hlt, hget⟩ := List.getElem?_eq_some_iff.mp hp
  have hlt' : handle < g.rules.toList.length := by
    rw [h.rules.length_eq]
    exact hlt
  refine ⟨g.rules[handle], p, Array.getElem?_eq_getElem hlt', hp, ?_, hname⟩
  rw [← hget]
  exact h.rules.get hlt' hlt

end IndexedGrammar

end Descent
