import Descent.Proofs.Lexing.Atomicity
import Descent.Proofs.Lexing.ScanFaults
import Descent.Proofs.Text.OneLine
import Descent.Proofs.Text.Words

/-!
The wording of a lexical analysis. Whatever a source and its language look like, the texts of the
lexemes stand on one line each, and so does the message of a fault.
-/
namespace Descent.Lexing

open Text (OneLine Position)

variable {l l' : Lexicon} {p place : Position} {c : Char} {rest text : List Char} {x : Lexeme}
  {xs : List Lexeme} {f : Fault} {token : String} {rules : List Substitution}
  {t : Substitution}

/-- A scan takes no blank into a lexeme. -/
theorem oneLine_scan (l : Lexicon) (p : Position) (text : List Char) :
    ∀ x ∈ (scan l p text).lexemes, OneLine x.text := by
  fun_induction scan l p text with
  | case1 | case3 => exact List.forall_mem_nil _
  | case2 l p c rest _ ih => exact ih
  | case4 l p c rest hb x l' rest' h ih =>
    have hx := standsAt_of_readToken (by simpa using hb) h
    exact List.forall_mem_cons.mpr ⟨hx.not_mem_newline, ih⟩

/-- The tokens of a replacement are cut at its blanks. -/
theorem oneLine_of_mem_result (h : token ∈ t.result) : OneLine token :=
  Text.oneLine_of_visible fun _ => Text.not_isBlank_of_mem_splitWords h

theorem oneLine_insert (ht : OneLine token) (h : insert l place token = .ok x) :
    OneLine x.text := by
  obtain ⟨category, i, -, rfl⟩ := insert_eq_ok_iff.mp h
  exact ht

theorem oneLine_substitute (l : Lexicon) (rules : List Substitution)
    (hx : ∀ x ∈ xs, OneLine x.text) :
    ∀ x ∈ (substitute l rules xs).lexemes, OneLine x.text := by
  refine forall_substitute rules ?_ hx
  intro t _ token htoken place x hinsert
  exact oneLine_insert (oneLine_of_mem_result htoken) hinsert

theorem oneLine_tokenize (rules : LexicalRules) (l : Lexicon) (source : String) :
    ∀ x ∈ (tokenize rules l source).lexemes, OneLine x.text := by
  have hc := tokenize_cases rules l source
  generalize (tokenize rules l source).lexemes = xs, (tokenize rules l source).lexicon = m,
    (tokenize rules l source).fault = o at hc ⊢
  cases hc with
  | unclosed => exact List.forall_mem_nil _
  | stopped _ hs => exact hs ▸ oneLine_scan l .start _
  | scanned _ hs => exact oneLine_substitute _ _ (hs ▸ oneLine_scan l .start _)

theorem oneLine_message (h : OneLine f.cause.message) : OneLine f.message := by
  have hplace : OneLine ("lexical error at line " ++ toString f.place.line ++ ", column " ++
      toString f.place.column ++ ": ") := by
    simp only [Text.oneLine_append, Text.oneLine_toString, and_true]
    decide +kernel
  exact Text.oneLine_append.mpr ⟨hplace, h⟩

/-- What is quoted in a message may be any character, for it is escaped there. -/
theorem oneLine_unknownCharacter (c : Char) :
    OneLine (Fault.Cause.unknownCharacter c).message := by
  change OneLine ("unknown character `" ++ Text.escape c ++ "`")
  simp only [Text.oneLine_append, Text.oneLine_escape, and_true]
  decide +kernel

theorem oneLine_invalidNumber (h : OneLine token) :
    OneLine (Fault.Cause.invalidNumber token).message := by
  change OneLine ("invalid number `" ++ token ++ "`")
  simp only [Text.oneLine_append, h, and_true]
  decide +kernel

theorem oneLine_unresolvedToken (h : OneLine token) :
    OneLine (Fault.Cause.unresolvedToken token).message := by
  change OneLine ("preprocessing failed, `" ++ token ++
    "` is neither a reserved word nor a separator")
  simp only [Text.oneLine_append, h, and_true]
  decide +kernel

theorem oneLine_message_of_culprit (h : Culprit l p text f) : OneLine f.message := by
  apply oneLine_message
  cases h with
  | unknown | intruder => exact oneLine_unknownCharacter _
  | invalid hn => exact oneLine_invalidNumber (Text.oneLine_ofList.mpr hn.1.not_mem_newline)

theorem oneLine_message_of_scan (h : (scan l .start text).fault = some f) : OneLine f.message := by
  obtain ⟨pre, c, rest, l', l'', -, -, hb, hr⟩ := scan_cut h
  exact oneLine_message_of_culprit (culprit_of_readToken hb hr)

theorem oneLine_message_of_stripComments {styles : List CommentStyle}
    (h : stripComments styles text = .error f) : OneLine f.message := by
  apply oneLine_message
  have hcause : f.cause = .unterminatedComment := by
    unfold stripComments at h
    split at h
    · cases h
    · cases h
      rfl
  rw [hcause]
  decide +kernel

/-- The fault of a rule is about a token of its result. -/
theorem exists_of_blames (h : Blames l t xs f) :
    ∃ token ∈ t.result, f.cause = .unresolvedToken token := by
  cases h with
  | intro aligned _ _ _ _ _ hfirst =>
    obtain ⟨listed, more, hnew, -, -⟩ := hfirst
    refine ⟨_, ?_, rfl⟩
    rw [aligned.result, hnew]
    simp

theorem oneLine_message_of_substitute (h : (substitute l rules xs).fault = some f) :
    OneLine f.message := by
  obtain ⟨k, t, ys, hstuck⟩ :=
    exists_stuckAt (runs_substitute l rules xs) (Option.isSome_of_eq_some h)
  obtain ⟨f', hblames, hrun⟩ := hstuck.stops
  obtain rfl : f' = f := Option.some.inj ((runs_iff.mp hrun).2.symm.trans h)
  obtain ⟨token, hmem, hcause⟩ := exists_of_blames hblames
  apply oneLine_message
  rw [hcause]
  exact oneLine_unresolvedToken (oneLine_of_mem_result hmem)

theorem oneLine_message_of_tokenize {rules : LexicalRules} {source : String}
    (h : (tokenize rules l source).fault = some f) : OneLine f.message := by
  have hc := tokenize_cases rules l source
  generalize (tokenize rules l source).lexemes = xs, (tokenize rules l source).lexicon = m,
    (tokenize rules l source).fault = o at hc h
  subst h
  generalize ho : some f = o at hc
  cases hc with
  | unclosed hc =>
    cases ho
    exact oneLine_message_of_stripComments hc
  | stopped _ hs hf =>
    cases ho
    exact oneLine_message_of_scan (hs ▸ hf)
  | scanned => exact oneLine_message_of_substitute ho.symm

end Descent.Lexing
