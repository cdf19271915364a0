import Descent.Proofs.Lexing.Fidelity
import Descent.Proofs.Lexing.Substitution

/-!
Lexemes and tables belong together. The tables hold for every lexeme what its text stands for, from
the analysis that yields it on, and nothing gets into them but what the lexemes are read from.
-/
namespace Descent.Lexing

open Lexicon (SameTerminals Grows)
open Text (Position isBlank)

variable {rules : LexicalRules} {l l' l'' : Lexicon} {p : Position} {c : Char}
  {text rest rest' : List Char} {x : Lexeme} {xs ys : List Lexeme} {f : Fault} {literal : Literal}
  {more : Option Literal}

/-- What the text of a lexeme stands for is in its table under its symbol, and the text of an
identifier is no reserved word. -/
structure Holds (l : Lexicon) (x : Lexeme) : Prop where
  resolves : l.Resolves x
  unreserved : x.category = .identifier → x.text ∉ l.words.atoms
  integer : x.category = .integer → spelled? x.text = some (.integer (decimalValue x.text)) ∧
    l.integers.get? x.symbol = some (decimalValue x.text)
  real : x.category = .real → ∃ value, spelled? x.text = some (.real value) ∧
    l.reals.get? x.symbol = some value

theorem Holds.grows (hx : Holds l x) (h : Grows l l') : Holds l' x where
  resolves := hx.resolves.grows h
  unreserved hc := h.words ▸ hx.unreserved hc
  integer hc := (hx.integer hc).imp_right (SymbolTable.get?_of_prefix h.integers)
  real hc :=
    have ⟨value, hs, hv⟩ := hx.real hc
    ⟨value, hs, SymbolTable.get?_of_prefix h.reals hv⟩

/-- What a numeral is registered as is what its text spells. -/
theorem holds_register {n : Numeral} (hn : n.Proper) (hv : n.literal? = some literal)
    (p : Position) : Holds (register l literal).1
      (.spanning (register l literal).2.1 (register l literal).2.2 n.text p) := by
  have hs := (spelled?_ofList hn).trans hv
  cases literal with
  | integer value =>
    obtain ⟨-, rfl⟩ := Numeral.text_of_integer hv
    exact ⟨rfl, nofun, fun _ => ⟨hs, l.integers.get?_register _⟩, nofun⟩
  | real value => exact ⟨rfl, nofun, nofun, fun _ => ⟨value, hs, l.reals.get?_register value⟩⟩

theorem holds_readToken (h : readToken l p c rest = .token x l' rest') : Holds l' x := by
  cases readToken_cases h with
  | word _ hf => exact ⟨SymbolTable.find?_eq_some_iff.mp hf, nofun, nofun, nofun⟩
  | identifier _ hn hf =>
    subst hn
    exact ⟨l.identifiers.get?_register _, fun _ => SymbolTable.find?_eq_none_iff.mp hf, nofun,
      nofun⟩
  | number _ hd hn hv => exact holds_register (longest_of_read hd hn).1 hv p
  | separator _ _ hf => exact ⟨SymbolTable.find?_eq_some_iff.mp hf, nofun, nofun, nofun⟩

theorem holds_scan (l : Lexicon) (p : Position) (text : List Char) :
    ∀ x ∈ (scan l p text).lexemes, Holds (scan l p text).lexicon x := by
  fun_induction scan l p text with
  | case1 | case3 => simp
  | case2 _ _ _ _ _ ih => exact ih
  | case4 l p c rest _ x l' rest' h ih =>
    intro y hy
    rcases List.mem_cons.mp hy with rfl | hy
    · exact (holds_readToken h).grows (grows_scan l' y.next rest')
    · exact ih y hy

/-- What is inserted is a word or a separator under the symbol that its table has for it. -/
theorem holds_insert (l : Lexicon) (place : Position) (token : String) (x : Lexeme)
    (h : insert l place token = .ok x) : Holds l x := by
  obtain ⟨category, i, ht, rfl⟩ := insert_eq_ok_iff.mp h
  obtain ⟨rfl, hi⟩ | ⟨rfl, hi⟩ := Lexicon.get?_of_terminal? ht
  · exact ⟨hi, nofun, nofun, nofun⟩
  · exact ⟨hi, nofun, nofun, nofun⟩

theorem holds_tokenize (rules : LexicalRules) (l : Lexicon) (source : String) :
    ∀ x ∈ (tokenize rules l source).lexemes, Holds (tokenize rules l source).lexicon x := by
  have hc := tokenize_cases rules l source
  generalize (tokenize rules l source).lexemes = xs, (tokenize rules l source).lexicon = m,
    (tokenize rules l source).fault = o at hc ⊢
  cases hc with
  | unclosed => nofun
  | stopped _ hs => exact hs ▸ holds_scan l .start _
  | scanned _ hs =>
    exact forall_substitute _ (fun _ _ token _ place => holds_insert _ place token)
      (hs ▸ holds_scan l .start _)

/-- Every lexeme resolves to its text in the lexicon at the end. -/
theorem resolves_tokenize (rules : LexicalRules) (l : Lexicon) (source : String) :
    ∀ x ∈ (tokenize rules l source).lexemes, (tokenize rules l source).lexicon.Resolves x :=
  fun x hx => (holds_tokenize rules l source x hx).resolves

/-- The texts of the lexemes of one category. -/
def textsOf (category : Category) (xs : List Lexeme) : List String :=
  (xs.filter (·.category = category)).map Lexeme.text

@[simp] theorem textsOf_nil (category : Category) : textsOf category [] = [] := rfl

@[simp] theorem textsOf_append (category : Category) (xs ys : List Lexeme) :
    textsOf category (xs ++ ys) = textsOf category xs ++ textsOf category ys := by
  simp [textsOf]

def Literal.integer? : Literal → Option Nat
  | .integer value => some value
  | .real _ => none

def Literal.real? : Literal → Option Binary64
  | .integer _ => none
  | .real value => some value

/-- The value of a text that spells a real number. -/
def realValue? (text : String) : Option Binary64 := (spelled? text).bind Literal.real?

/-- The later lexicon has, after what was there, the texts or values of the lexemes and perhaps of
one literal more, in the order of their first occurrence and each once. -/
structure Records (l : Lexicon) (xs : List Lexeme) (more : Option Literal) (l' : Lexicon) :
    Prop where
  identifiers : l'.identifiers.atoms =
    (l.identifiers.atoms ++ textsOf .identifier xs).eraseDups
  integers : l'.integers.atoms = (l.integers.atoms ++ ((textsOf .integer xs).map decimalValue ++
    (more.bind Literal.integer?).toList)).eraseDups
  reals : l'.reals.atoms = (l.reals.atoms ++ ((textsOf .real xs).filterMap realValue? ++
    (more.bind Literal.real?).toList)).eraseDups

theorem Records.refl (l : Lexicon) : Records l [] none l := by
  constructor <;> simp

theorem Records.trans (h : Records l xs none l') (h' : Records l' ys more l'') :
    Records l (xs ++ ys) more l'' where
  identifiers := by
    rw [h'.identifiers, h.identifiers]
    simp [SymbolTable.eraseDups_eraseDups_append]
  integers := by
    rw [h'.integers, h.integers]
    simp [SymbolTable.eraseDups_eraseDups_append]
  reals := by
    rw [h'.reals, h.reals]
    simp [SymbolTable.eraseDups_eraseDups_append]

theorem records_registerIdentifier (l : Lexicon) (name : String) (hx : x.category = .identifier)
    (ht : x.text = name) : Records l [x] none (l.registerIdentifier name).1 := by
  have hi := l.identifiers.eraseDups_register name []
  rw [List.append_nil, SymbolTable.eraseDups_atoms] at hi
  constructor <;> simp [textsOf, hx, ht, Lexicon.registerIdentifier, hi]

/-- A registered literal is one more, until the numeral it is read from is a lexeme. -/
theorem records_register (l : Lexicon) (literal : Literal) :
    Records l [] (some literal) (register l literal).1 := by
  cases literal with
  | integer value =>
    have hi := l.integers.eraseDups_register value []
    rw [List.append_nil, SymbolTable.eraseDups_atoms] at hi
    constructor <;> simp [register, Lexicon.registerInteger, Literal.integer?, Literal.real?, hi]
  | real value =>
    have hi := l.reals.eraseDups_register value []
    rw [List.append_nil, SymbolTable.eraseDups_atoms] at hi
    constructor <;> simp [register, Lexicon.registerReal, Literal.integer?, Literal.real?, hi]

theorem Records.number (h : Records l [] (some literal) l') {n : Numeral} (hn : n.Proper)
    (hv : n.literal? = some literal) (i : Nat) (p : Position) :
    Records l [.spanning (register l literal).2.1 i n.text p] none l' := by
  have hs := (spelled?_ofList hn).trans hv
  obtain ⟨hname, hint, hreal⟩ := h
  cases literal with
  | integer value =>
    obtain ⟨-, rfl⟩ := Numeral.text_of_integer hv
    constructor <;> simp_all [textsOf, register, Lexeme.spanning, Literal.integer?, Literal.real?]
  | real value =>
    constructor <;> simp_all [textsOf, register, Lexeme.spanning, Literal.integer?, Literal.real?, realValue?]

theorem records_readToken (h : readToken l p c rest = .token x l' rest') :
    Records l [x] none l' := by
  cases readToken_cases h with
  | word | separator => constructor <;> simp [textsOf, Lexeme.spanning]
  | identifier _ hn => exact records_registerIdentifier l _ rfl hn.symm
  | number _ hd hn hv => exact (records_register l _).number (longest_of_read hd hn).1 hv _ p

/-- A numeral for the literal comes after the lexemes and the blanks between them, and the character
after it, which is neither a blank nor a separator, is the fault. -/
def Intruded (rules : LexicalRules) (p : Position) (text : List Char) (xs : List Lexeme) (f : Fault)
    (literal : Literal) : Prop :=
  ∃ pre numeral d post, text = pre ++ (numeral ++ d :: post) ∧
    pre.filter (!isBlank ·) = xs.flatMap (·.text.toList) ∧
    IsLongestNumeral numeral (d :: post) ∧ spelled? (String.ofList numeral) = some literal ∧
    isBlank d = false ∧ d.toString ∉ rules.separators ∧
    f = ⟨.unknownCharacter d, p.through (pre ++ numeral)⟩

theorem Intruded.blank (hb : isBlank c = true)
    (h : Intruded rules (p.advance c) rest xs f literal) :
    Intruded rules p (c :: rest) xs f literal := by
  obtain ⟨pre, numeral, d, post, rfl, hpre, h⟩ := h
  exact ⟨c :: pre, numeral, d, post, rfl, by simpa [hb] using hpre, h⟩

theorem Intruded.token (hx : StandsAt x p) (h : Intruded rules x.next rest xs f literal) :
    Intruded rules p (x.text.toList ++ rest) (x :: xs) f literal := by
  obtain ⟨pre, numeral, d, post, rfl, hpre, hn, hs, hb, hd, rfl⟩ := h
  have hvisible : x.text.toList.filter (!isBlank ·) = x.text.toList :=
    List.filter_eq_self.mpr fun c hc => by simp [hx.visible c hc]
  refine ⟨x.text.toList ++ pre, numeral, d, post, by simp, ?_, hn, hs, hb, hd, ?_⟩
  · rw [List.filter_append, hvisible, hpre, List.flatMap_cons]
  · rw [List.append_assoc, Position.through_append _ x.text.toList, hx.through]

/-- A reading that fails may leave a literal, the one of a numeral that does not end there. -/
theorem records_fault (hl : SameTerminals rules.lexicon l)
    (h : readToken l p c rest = .fault f l') :
    ∃ more, Records l [] more l' ∧
      ∀ literal ∈ more, Intruded rules p (c :: rest) [] f literal := by
  cases readToken_cases h with
  | invalid | unknown => exact ⟨none, .refl l, nofun⟩
  | @intruded n after literal d _ hd hn hv hi =>
    obtain ⟨hproper, hlongest, happend⟩ := longest_of_read hd hn
    have hs := hl.trans (grows_register l literal).toSameTerminals
    obtain ⟨post, rfl, hb, hsep⟩ := exists_of_intruder? hs hi
    have hline : '\n' ∉ n.text := fun hm => absurd (hproper.not_isBlank_of_mem hm) (by decide)
    refine ⟨some literal, records_register l literal, ?_⟩
    rintro _ ⟨⟩
    refine ⟨[], n.text, d, post, happend.symm, rfl, hlongest, (spelled?_ofList hproper).trans hv,
      hb, hsep, ?_⟩
    rw [List.nil_append, Position.through_of_not_mem hline]

/-- The tables after a scan have what its lexemes are read from, and the literal of one numeral more
if the scan ends at the character after it. -/
theorem records_scan (hl : SameTerminals rules.lexicon l) (p : Position) (text : List Char) :
    ∃ more, Records l (scan l p text).lexemes more (scan l p text).lexicon ∧
      ∀ literal ∈ more, ∃ f, (scan l p text).fault = some f ∧
        Intruded rules p text (scan l p text).lexemes f literal := by
  fun_induction scan l p text with
  | case1 l => exact ⟨none, .refl l, by simp⟩
  | case2 l p c rest hb ih =>
    obtain ⟨more, hr, hm⟩ := ih hl
    exact ⟨more, hr, fun literal h => (hm literal h).imp fun f hf => hf.imp_right (.blank hb)⟩
  | case3 l p c rest _ f l' h =>
    obtain ⟨more, hr, hm⟩ := records_fault hl h
    exact ⟨more, hr, fun literal h => ⟨f, rfl, hm literal h⟩⟩
  | case4 l p c rest hb x l' rest' h ih =>
    have hgrows := grows_readToken l p c rest
    rw [h] at hgrows
    obtain ⟨he, hx, -⟩ := whole_of_readToken hl (by simpa using hb) h
    obtain ⟨more, hr, hm⟩ := ih (hl.trans hgrows.toSameTerminals)
    refine ⟨more, (records_readToken h).trans hr, fun literal hmem => ?_⟩
    obtain ⟨f, hf, hi⟩ := hm literal hmem
    exact ⟨f, hf, he ▸ hi.token hx⟩

/-- What a lexical analysis leaves in the tables unless substitutions have a part in it. -/
theorem records_tokenize (hl : SameTerminals rules.lexicon l) (rules' : LexicalRules)
    (source : String) (h : rules'.substitutions = [] ∨
      ∃ f, (tokenize rules' l source).fault = some f ∧ ¬ f.Unresolved) :
    ∃ more, Records l (tokenize rules' l source).lexemes more (tokenize rules' l source).lexicon ∧
      ∀ literal ∈ more, ∃ f stripped, (tokenize rules' l source).fault = some f ∧
        stripComments rules'.comments (Text.unifyLines source.toList) = .ok stripped ∧
        Intruded rules .start stripped (tokenize rules' l source).lexemes f literal := by
  have hc := tokenize_cases rules' l source
  generalize (tokenize rules' l source).lexemes = xs, (tokenize rules' l source).lexicon = m,
    (tokenize rules' l source).fault = o at hc h ⊢
  cases hc with
  | unclosed => exact ⟨none, .refl l, nofun⟩
  | @stopped stripped s f hstrip hs hf =>
    obtain ⟨more, hr, hm⟩ := records_scan hl .start stripped
    rw [hs, hf] at hm
    refine ⟨more, hs ▸ hr, fun literal hmem => ?_⟩
    obtain ⟨f, hf, hi⟩ := hm literal hmem
    exact ⟨f, stripped, hf, hstrip, hi⟩
  | @scanned stripped s hstrip hs hf =>
    obtain hnone | ⟨f, hfault, hu⟩ := h
    · obtain ⟨more, hr, hm⟩ := records_scan hl .start stripped
      rw [hs, hf] at hm
      rw [hnone]
      refine ⟨more, hs ▸ hr, fun literal hmem => ?_⟩
      obtain ⟨f, hf, -⟩ := hm literal hmem
      cases hf
    · exact absurd (unresolved_substitute _ hfault) hu

/-- Lexical analyses in order, each with the lexicon that the one before it has left behind. -/
def tokenizeAll (l : Lexicon) : List (LexicalRules × String) → List Lexed
  | [] => []
  | (rules, source) :: rest =>
    tokenize rules l source :: tokenizeAll (tokenize rules l source).lexicon rest

/-- The lexicon that they leave behind. -/
def lexiconAfter (l : Lexicon) (calls : List (LexicalRules × String)) : Lexicon :=
  calls.foldl (fun l call => (tokenize call.1 l call.2).lexicon) l

theorem grows_lexiconAfter (l : Lexicon) (calls : List (LexicalRules × String)) :
    Grows l (lexiconAfter l calls) := by
  induction calls generalizing l with
  | nil => exact .refl l
  | cons call rest ih => exact (grows_tokenize call.1 l call.2).trans (ih _)

theorem holds_tokenizeAll (l : Lexicon) (calls : List (LexicalRules × String)) :
    ∀ lexed ∈ tokenizeAll l calls, ∀ x ∈ lexed.lexemes, Holds (lexiconAfter l calls) x := by
  induction calls generalizing l with
  | nil => nofun
  | cons call rest ih =>
    obtain ⟨rules, source⟩ := call
    intro lexed hlexed x hx
    rcases List.mem_cons.mp hlexed with rfl | hlexed
    · exact (holds_tokenize rules l source x hx).grows (grows_lexiconAfter _ rest)
    · exact ih _ lexed hlexed x hx

/-- Along analyses with whatever rules, failing ones among them, the tables hold for every lexeme
what its text stands for, and no identifier is a reserved word. An analysis without substitutions
that comes to its end in fresh tables leaves there what its lexemes stand for and nothing else. A
scan that stops leaves at most one entry more, the value of a numeral with a wrong character after
it. -/
theorem tables_coherent (seed : LexicalRules) (calls : List (LexicalRules × String)) :
    (∀ lexed ∈ tokenizeAll seed.lexicon calls, ∀ x ∈ lexed.lexemes,
      Holds (lexiconAfter seed.lexicon calls) x ∧
        (x.category = .identifier → x.text ∉ seed.words)) ∧
    (∀ rules source, rules.substitutions = [] →
      (tokenize rules seed.lexicon source).fault = none →
      let lexed := tokenize rules seed.lexicon source
      lexed.lexicon.identifiers.atoms = (textsOf .identifier lexed.lexemes).eraseDups ∧
        lexed.lexicon.integers.atoms =
          ((textsOf .integer lexed.lexemes).map decimalValue).eraseDups ∧
        lexed.lexicon.reals.atoms =
          ((textsOf .real lexed.lexemes).filterMap realValue?).eraseDups) ∧
    ∀ rules source f,
      (tokenize rules (lexiconAfter seed.lexicon calls) source).fault = some f → ¬ f.Unresolved →
      let lexed := tokenize rules (lexiconAfter seed.lexicon calls) source
      ∃ more, Records (lexiconAfter seed.lexicon calls) lexed.lexemes more lexed.lexicon ∧
        ∀ literal ∈ more, ∃ stripped,
          stripComments rules.comments (Text.unifyLines source.toList) = .ok stripped ∧
          Intruded seed .start stripped lexed.lexemes f literal := by
  have hgrows := grows_lexiconAfter seed.lexicon calls
  refine ⟨fun lexed hlexed x hx => ?_, fun rules source hs hf => ?_, fun rules source f hf hu => ?_⟩
  · have hholds := holds_tokenizeAll seed.lexicon calls lexed hlexed x hx
    refine ⟨hholds, fun hc hmem => hholds.unreserved hc ?_⟩
    rw [hgrows.words]
    exact SymbolTable.mem_ofList.mpr hmem
  · obtain ⟨more, hr, hm⟩ := records_tokenize (.refl seed.lexicon) rules source (Or.inl hs)
    cases more with
    | some literal =>
      obtain ⟨f, _, hfault, -⟩ := hm literal rfl
      rw [hf] at hfault
      cases hfault
    | none =>
      have hint := hr.integers
      have hreal := hr.reals
      rw [Option.bind_none, Option.toList_none, List.append_nil] at hint hreal
      exact ⟨hr.identifiers, hint, hreal⟩
  · obtain ⟨more, hr, hm⟩ :=
      records_tokenize hgrows.toSameTerminals rules source (Or.inr ⟨f, hf, hu⟩)
    refine ⟨more, hr, fun literal hmem => ?_⟩
    obtain ⟨f', stripped, hf', hstrip, hi⟩ := hm literal hmem
    rw [hf] at hf'
    cases hf'
    exact ⟨stripped, hstrip, hi⟩

/-- A `let` that a substitution inserts, an identifier and numbers are found again after an analysis
that stops at the `d` of `12d`, where `12` has been registered although there is no lexeme of it. -/
theorem tables_coherent_assignments :
    let marked : LexicalRules := { assignments with substitutions := [⟨"=", "let ="⟩] }
    let calls := [(marked, "a = 1.50; b = 007;"), (assignments, "c = 12d")]
    let l := lexiconAfter assignments.lexicon calls
    (tokenizeAll assignments.lexicon calls).map (·.lexemes.map Lexeme.text) =
        [["a", "let", "=", "1.50", ";", "b", "let", "=", "007", ";"], ["c", "="]] ∧
      l.identifiers.atoms = ["a", "b", "c"] ∧ l.integers.atoms = [7, 12] ∧
      (∀ lexed ∈ tokenizeAll assignments.lexicon calls, ∀ x ∈ lexed.lexemes, Holds l x) ∧
      (tokenize assignments assignments.lexicon "a = 7; b = a; b = 07;").lexicon.integers.atoms =
        ((textsOf .integer (tokenize assignments assignments.lexicon
          "a = 7; b = a; b = 07;").lexemes).map decimalValue).eraseDups ∧
      ∃ literal, Intruded assignments .start "c = 12d".toList
        (tokenize assignments (lexiconAfter assignments.lexicon (calls.take 1)) "c = 12d").lexemes
        ⟨.unknownCharacter 'd', ⟨1, 7⟩⟩ literal := by
  intro marked calls l
  refine ⟨by decide +kernel, by decide +kernel, by decide +kernel, ?_, ?_, ?_⟩
  · exact fun lexed hlexed x hx => ((tables_coherent assignments calls).1 lexed hlexed x hx).1
  · have hf : (tokenize assignments assignments.lexicon "a = 7; b = a; b = 07;").fault = none := by
      decide +kernel
    exact ((tables_coherent assignments []).2.1 assignments _ rfl hf).2.1
  · have hf : (tokenize assignments (lexiconAfter assignments.lexicon (calls.take 1))
        "c = 12d").fault = some ⟨.unknownCharacter 'd', ⟨1, 7⟩⟩ := by decide +kernel
    obtain ⟨more, hr, hm⟩ := (tables_coherent assignments (calls.take 1)).2.2 assignments
      "c = 12d" _ hf (by rintro ⟨token, ⟨⟩⟩)
    cases more with
    | none => exact absurd hr.integers (by decide +kernel)
    | some literal =>
      obtain ⟨stripped, hstrip, hi⟩ := hm literal rfl
      have hs : stripComments assignments.comments (Text.unifyLines "c = 12d".toList) =
          .ok "c = 12d".toList := by decide +kernel
      cases hs.symm.trans hstrip
      exact ⟨literal, hi⟩

end Descent.Lexing
