import Descent.Description.Json
import Mathlib.Data.List.Forall2
import Mathlib.Data.List.Nodup
import Mathlib.Data.List.Perm.Basic

/-!
Records as JSON values: objects with their members in any order and others among them, or arrays of
the fields in their order. Either way each field is found, or it is one that may be left out, and
what it holds is read from it.
-/
namespace Descent.Json

/-- A field of a record: whether it may be left out, and which values hold what it has to. -/
structure Field where
  name : String
  mayMiss : Prop
  holds : Json → Prop

/-- Members for fields in their order, without some of those that may be left out. -/
inductive Given : List Field → List (Option String × Json) → Prop
  | nil : Given [] []
  | present {f : Field} {fs : List Field} {j : Json} {ms : List (Option String × Json)}
      (h : f.holds j) (hr : Given fs ms) : Given (f :: fs) ((some f.name, j) :: ms)
  | absent {f : Field} {fs : List Field} {ms : List (Option String × Json)} (h : f.mayMiss)
      (hr : Given fs ms) : Given (f :: fs) ms

/-- Values for the first so many fields in their order, the others such that may be left out. -/
inductive Leading : List Field → List Json → Prop
  | nil {fs : List Field} (h : ∀ f ∈ fs, f.mayMiss) : Leading fs []
  | cons {f : Field} {fs : List Field} {j : Json} {js : List Json} (h : f.holds j)
      (hr : Leading fs js) : Leading (f :: fs) (j :: js)

/-- The values that are a record with the given fields. -/
inductive IsRecord (fields : List Field) : Json → Prop
  /-- The members come in any order, with others of unknown names anywhere among them. -/
  | object {ms given extra : List (Option String × Json)} (hg : Given fields given)
      (he : ∀ m ∈ extra, ∃ name, m.1 = some name ∧ name ∉ fields.map Field.name)
      (hp : ms.Perm (given ++ extra)) : IsRecord fields (.object ms)
  | array {js : List Json} (h : Leading fields js) : IsRecord fields (.array js)

/-- A field is found with a value that it holds, or not found where it may be left out. -/
def Field.Found (f : Field) (field : String → Option Json) : Prop :=
  (∃ j, field f.name = some j ∧ f.holds j) ∨ field f.name = none ∧ f.mayMiss

variable {f : Field} {fields : List Field} {ms given extra : List (Option String × Json)}
  {js : List Json} {j : Json} {α : Type} {x : α} {xs : List α}

theorem Leading.length_le (h : Leading fields js) : js.length ≤ fields.length := by
  induction h with
  | nil => exact Nat.zero_le _
  | cons _ _ ih => exact Nat.succ_le_succ ih

theorem found_of_leading (hn : (fields.map Field.name).Nodup) (h : Leading fields js) :
    ∀ f ∈ fields, f.Found fun name => ((fields.map Field.name).idxOf? name).bind (js[·]?) := by
  induction h with
  | nil h => exact fun f hf => Or.inr ⟨by simp, h f hf⟩
  | @cons f fs j js h _ ih =>
    obtain ⟨hf, hn⟩ := List.nodup_cons.mp hn
    refine List.forall_mem_cons.mpr ⟨Or.inl ⟨j, by simp [List.idxOf?_cons], h⟩, fun g hg => ?_⟩
    have hne : f.name ≠ g.name := fun he => hf (he ▸ List.mem_map_of_mem hg)
    have hrest : (((f :: fs).map Field.name).idxOf? g.name).bind ((j :: js)[·]?) =
        ((fs.map Field.name).idxOf? g.name).bind (js[·]?) := by
      rw [List.map_cons, List.idxOf?_cons, if_neg (by simpa using hne)]
      cases (fs.map Field.name).idxOf? g.name <;> rfl
    rw [Field.Found, hrest]
    exact ih hn g hg

/-- The members in any order and no others. -/
theorem IsRecord.ofPerm (hg : Given fields given) (hp : ms.Perm given) :
    IsRecord fields (.object ms) := by
  have hnil : ∀ m ∈ ([] : List (Option String × Json)),
      ∃ name, m.1 = some name ∧ name ∉ fields.map Field.name := nofun
  exact .object hg hnil (by rwa [List.append_nil])

/-- The members with one name. -/
def named (name : String) (ms : List (Option String × Json)) : List (Option String × Json) :=
  ms.filter fun m => m.1 = some name

theorem lookup?_eq_head? (name : String) (ms : List (Option String × Json)) :
    lookup? name ms = (named name ms).head?.map Prod.snd := by
  rw [lookup?, named, List.head?_filter]

theorem Given.sublist (h : Given fields given) :
    (given.map Prod.fst).Sublist (fields.map fun f => some f.name) := by
  induction h with
  | nil => exact .slnil
  | present _ _ ih => exact ih.cons_cons _
  | absent _ _ ih => exact ih.cons _

theorem Given.name_mem (h : Given fields given) {m : Option String × Json} (hm : m ∈ given) :
    ∃ f ∈ fields, m.1 = some f.name := by
  have hmem := h.sublist.subset (List.mem_map_of_mem hm)
  obtain ⟨f, hf, he⟩ := List.mem_map.mp hmem
  exact ⟨f, hf, he.symm⟩

theorem named_eq_nil {name : String} (h : ∀ m ∈ ms, m.1 ≠ some name) : named name ms = [] :=
  List.filter_eq_nil_iff.mpr fun m hm => by simpa using h m hm

/-- Among the members given, a field is there once, or it is not there and may be left out. -/
theorem named_of_given (hn : (fields.map Field.name).Nodup) (h : Given fields given) :
    ∀ f ∈ fields, (∃ j, named f.name given = [(some f.name, j)] ∧ f.holds j) ∨
      named f.name given = [] ∧ f.mayMiss := by
  have hnone {f : Field} {fs : List Field} {ms : List (Option String × Json)}
      (hf : f.name ∉ fs.map Field.name) (hr : Given fs ms) : named f.name ms = [] := by
    refine named_eq_nil fun m hm he => ?_
    obtain ⟨g, hg, hname⟩ := hr.name_mem hm
    have heq : f.name = g.name := Option.some.inj (he.symm.trans hname)
    exact hf (heq ▸ List.mem_map_of_mem hg)
  induction h with
  | nil => nofun
  | @present f fs j ms h hr ih =>
    obtain ⟨hf, hn⟩ := List.nodup_cons.mp hn
    refine List.forall_mem_cons.mpr ⟨Or.inl ⟨j, ?_, h⟩, fun g hg => ?_⟩
    · simpa [named] using hnone hf hr
    · have hne : f.name ≠ g.name := fun he => hf (he ▸ List.mem_map_of_mem hg)
      simpa [named, hne] using ih hn g hg
  | @absent f fs ms h hr ih =>
    obtain ⟨hf, hn⟩ := List.nodup_cons.mp hn
    exact List.forall_mem_cons.mpr ⟨Or.inr ⟨hnone hf hr, h⟩, ih hn⟩

/-- A field is found among all members as it is among those given. -/
theorem lookup?_perm {name : String} (hp : ms.Perm (given ++ extra))
    (he : ∀ m ∈ extra, m.1 ≠ some name) (hlen : (named name given).length ≤ 1) :
    lookup? name ms = (named name given).head?.map Prod.snd := by
  have hnamed : (named name ms).Perm (named name given) := by
    have hfilter := hp.filter fun m => m.1 = some name
    rwa [List.filter_append, ← named, ← named, ← named, named_eq_nil he,
      List.append_nil] at hfilter
  have heq : named name ms = named name given := by
    match hg : named name given with
    | [] => exact List.perm_nil.mp (hg ▸ hnamed)
    | [m] => exact List.perm_singleton.mp (hg ▸ hnamed)
    | _ :: _ :: _ => simp [hg] at hlen
  rw [lookup?_eq_head?, heq]

/-- The fields that are known stand at most once among the members. -/
theorem nodup_known (hn : (fields.map Field.name).Nodup) (hg : Given fields given)
    (he : ∀ m ∈ extra, ∃ name, m.1 = some name ∧ name ∉ fields.map Field.name)
    (hp : ms.Perm (given ++ extra)) :
    ((ms.map Prod.fst).filter fun n =>
      n.any ((fields.map Field.name).contains ·)).Nodup := by
  have hextra : (extra.map Prod.fst).filter (fun n =>
      n.any ((fields.map Field.name).contains ·)) = [] := by
    refine List.filter_eq_nil_iff.mpr (List.forall_mem_map.mpr fun m hm => ?_)
    obtain ⟨name, hname, hout⟩ := he m hm
    simpa [hname] using hout
  have hgiven : (given.map Prod.fst).Nodup := by
    refine hg.sublist.nodup ?_
    have hsome := hn.map (f := some) fun _ _ => Option.some.inj
    rwa [List.map_map] at hsome
  have hperm := (hp.map Prod.fst).filter fun n => n.any ((fields.map Field.name).contains ·)
  rw [List.map_append, List.filter_append, hextra, List.append_nil] at hperm
  exact hperm.nodup_iff.mpr (hgiven.filter _)

/-- Of a record, each field is found that is not left out. -/
theorem fields?_of_isRecord (names : List String) (hnames : fields.map Field.name = names)
    (hn : names.Nodup) (h : IsRecord fields j) :
    ∃ field, j.fields? names = some field ∧ ∀ f ∈ fields, f.Found field := by
  subst hnames
  cases h with
  | @array js h =>
    have hlen : js.length ≤ (fields.map Field.name).length := by
      rw [List.length_map]
      exact h.length_le
    exact ⟨_, if_pos hlen, found_of_leading hn h⟩
  | @object ms given extra hg he hp =>
    have hnone : none ∉ ms.map Prod.fst := by
      intro hm
      obtain ⟨m, hm, hname⟩ := List.mem_map.mp hm
      rcases List.mem_append.mp (hp.mem_iff.mp hm) with hm | hm
      · obtain ⟨f, -, hf⟩ := hg.name_mem hm
        simp [hname] at hf
      · obtain ⟨name, hf, -⟩ := he m hm
        simp [hname] at hf
    refine ⟨_, if_pos ⟨hnone, nodup_known hn hg he hp⟩, fun f hf => ?_⟩
    have hextra : ∀ m ∈ extra, m.1 ≠ some f.name := by
      intro m hm heq
      obtain ⟨name, hname, hout⟩ := he m hm
      have hsame : name = f.name := Option.some.inj (hname.symm.trans heq)
      exact hout (hsame ▸ List.mem_map_of_mem hf)
    rw [Field.Found]
    rcases named_of_given hn hg f hf with ⟨j, hj, hholds⟩ | ⟨hj, hmiss⟩
    · rw [lookup?_perm hp hextra (by simp [hj]), hj]
      exact Or.inl ⟨j, rfl, hholds⟩
    · rw [lookup?_perm hp hextra (by simp [hj]), hj]
      exact Or.inr ⟨rfl, hmiss⟩

variable {written : α → Json → Prop} {read? : Json → Option α} {write : α → Json} {missing : α}
  {field : String → Option Json} {name a b s t : String}

def IsText (t : String) (j : Json) : Prop := j = .ofText t

/-- The value holds the items, each in a way in which it is written. -/
def IsList (written : α → Json → Prop) (xs : List α) (j : Json) : Prop :=
  ∃ js, j = .array js ∧ List.Forall₂ written xs js

/-- A field with a text. -/
def Field.text (name t : String) : Field := ⟨name, False, IsText t⟩

/-- A field with a list, which may be left out when the list is empty. -/
def Field.list (name : String) (written : α → Json → Prop) (xs : List α) : Field :=
  ⟨name, xs = [], IsList written xs⟩

theorem required_of_found (h : f.Found field) (hm : ¬f.mayMiss)
    (hr : ∀ j, f.holds j → read? j = some x) : required read? (field f.name) = some x := by
  rcases h with ⟨j, hj, hx⟩ | ⟨-, hmiss⟩
  · rw [hj]
    exact hr j hx
  · exact absurd hmiss hm

theorem optional_of_found (h : f.Found field) (hm : f.mayMiss → x = missing)
    (hr : ∀ j, f.holds j → read? j = some x) :
    optional missing read? (field f.name) = some x := by
  rcases h with ⟨j, hj, hx⟩ | ⟨hj, hmiss⟩
  · rw [hj]
    exact hr j hx
  · rw [hj, hm hmiss]
    rfl

theorem list?_of_isList (hr : ∀ x j, written x j → read? j = some x)
    (h : IsList written xs j) : list? read? j = some xs := by
  obtain ⟨js, rfl, hjs⟩ := h
  rw [list?]
  induction hjs with
  | nil => rfl
  | cons hx _ ih =>
    rw [List.mapM_cons, hr _ _ hx, ih]
    rfl

theorem text?_of_isText (t : String) (j : Json) (h : IsText t j) : text? j = some t := by
  rw [h]
  rfl

theorem required_text (h : (Field.text name t).Found field) :
    required text? (field name) = some t :=
  required_of_found h id (text?_of_isText t)

theorem optional_list (hr : ∀ x j, written x j → read? j = some x)
    (h : (Field.list name written xs).Found field) :
    optional [] (list? read?) (field name) = some xs :=
  optional_of_found h id fun _ => list?_of_isList hr

/-- A record of two texts. -/
theorem texts_of_isRecord (hab : a ≠ b) (h : IsRecord [.text a s, .text b t] j) :
    ∃ field, j.fields? [a, b] = some field ∧ required text? (field a) = some s ∧
      required text? (field b) = some t := by
  obtain ⟨field, hfields, hfound⟩ := fields?_of_isRecord [a, b] rfl (by simpa using hab) h
  simp only [List.forall_mem_cons] at hfound
  obtain ⟨hs, ht, -⟩ := hfound
  exact ⟨field, hfields, required_text hs, required_text ht⟩

theorem isRecord_record {ms : List (String × Json)}
    (h : Given fields (ms.map fun (name, j) => (some name, j))) : IsRecord fields (.record ms) :=
  .ofPerm h (.refl _)

theorem isText_ofText (t : String) : IsText t (.ofText t) := rfl

theorem isList_ofList (h : ∀ x, written x (write x)) (xs : List α) :
    IsList written xs (.ofList write xs) :=
  ⟨_, rfl, List.forall₂_map_right_iff.mpr (List.forall₂_same.mpr fun x _ => h x)⟩

end Descent.Json
