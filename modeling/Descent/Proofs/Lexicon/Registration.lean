import Descent.Binary64.Basic
import Descent.Proofs.Lexicon.Growth
import Mathlib.Data.List.Induction

/-!
Registration keeps what a table holds twice in step: the atoms in a vector by their indices, and the
indices in a hash map by their atoms. The vector is taken as given, with keys of 32 bits that it
hands out in order.
-/
namespace Descent

/-- What can be done with a table of type `τ` for atoms `α` under keys `κ`. -/
structure Operations (τ κ α : Type) where
  register : τ → α → τ × κ
  find? : τ → α → Option κ
  get? : τ → κ → Option α
  size : τ → Nat
  entries : τ → List (κ × α)

/-- A table in which the atoms `xs` have been registered one after the other, and what comes of
registering one more. The `i`-th key to be given is `key i`. -/
structure Operations.Coherent {τ κ α : Type} [DecidableEq α] (o : Operations τ κ α)
    (key : Nat → κ) (t : τ) (xs : List α) : Prop where
  find?_iff (a : α) (k : κ) : o.find? t a = some k ↔ o.get? t k = some a
  used (k : κ) : (o.get? t k).isSome ↔ ∃ i < o.size t, key i = k
  distinct {i j : Nat} (hi : i < o.size t) (hj : j < o.size t) (h : key i = key j) : i = j
  entry (k : κ) (a : α) : (k, a) ∈ o.entries t ↔ o.get? t k = some a
  keys : (o.entries t).map Prod.fst = (List.range (o.size t)).map key
  atoms : (o.entries t).map Prod.snd = xs.eraseDups
  kept (a : α) {k : κ} {b : α} (h : o.get? t k = some b) : o.get? (o.register t a).1 k = some b
  known {a : α} {k : κ} (h : o.find? t a = some k) : o.register t a = (t, k)
  new {a : α} (h : o.find? t a = none) : (o.register t a).2 = key (o.size t) ∧
    o.size (o.register t a).1 = o.size t + 1 ∧
    o.get? (o.register t a).1 (key (o.size t)) = some a

variable {α : Type} [DecidableEq α] {t : SymbolTable α} {a b : α} {i : Nat} {xs : List α}

namespace SymbolTable

def operations (α : Type) [DecidableEq α] : Operations (SymbolTable α) Nat α :=
  ⟨register, find?, get?, size, entries⟩

theorem register_known (h : t.find? a = some i) : t.register a = (t, i) := by
  obtain ⟨j, hj, hr⟩ | ⟨hn, -⟩ := t.register_cases a
  · obtain rfl := Option.some.inj (hj.symm.trans h)
    exact hr
  · cases hn.symm.trans h

theorem register_new (h : t.find? a = none) : t.register a = (t.push a h, t.size) := by
  obtain ⟨j, hj, -⟩ | ⟨_, hr⟩ := t.register_cases a
  · cases h.symm.trans hj
  · exact hr

theorem size_le_register (t : SymbolTable α) (a : α) : t.size ≤ (t.register a).1.size :=
  (t.prefix_register a).length_le

theorem find?_push (hn : t.find? a = none) (b : α) :
    (t.push a hn).find? b = if a = b then some t.size else t.find? b := by
  by_cases hb : a = b
  · subst hb
    have hget := t.get?_register a
    rw [register_new hn] at hget
    simpa using find?_eq_some_iff.mpr hget
  · rw [if_neg hb]
    cases hf : t.find? b with
    | some i =>
      have hold := find?_eq_some_iff.mp hf
      have hget : (t.push a hn).get? i = some b :=
        get?_of_prefix (List.prefix_append t.atoms [a]) hold
      exact find?_eq_some_iff.mpr hget
    | none =>
      have hold := find?_eq_none_iff.mp hf
      refine find?_eq_none_iff.mpr fun hmem => ?_
      rcases List.mem_append.mp hmem with hmem | hmem
      · exact hold hmem
      · exact hb (List.mem_singleton.mp hmem).symm

omit [DecidableEq α] in
theorem isSome_get? : (t.get? i).isSome ↔ i < t.size := by
  simp [get?, size]

omit [DecidableEq α] in
theorem mem_entries : (i, a) ∈ t.entries ↔ t.get? i = some a := by
  simp [entries, get?, List.mem_zipIdx_iff_getElem?]

omit [DecidableEq α] in
theorem map_fst_entries (t : SymbolTable α) : t.entries.map Prod.fst = List.range t.size := by
  rw [entries, List.map_map, List.range_eq_range']
  exact List.zipIdx_map_snd 0 t.atoms

omit [DecidableEq α] in
theorem map_snd_entries (t : SymbolTable α) : t.entries.map Prod.snd = t.atoms := by
  rw [entries, List.map_map]
  exact List.zipIdx_map_fst 0 t.atoms

theorem coherent_ofList (xs : List α) : (operations α).Coherent id (ofList xs) xs where
  find?_iff _ _ := find?_eq_some_iff
  used k := by
    refine isSome_get?.trans ⟨fun h => ⟨k, h, rfl⟩, ?_⟩
    rintro ⟨i, h, rfl⟩
    exact h
  distinct _ _ h := h
  entry _ _ := mem_entries
  keys := (map_fst_entries _).trans (List.map_id _).symm
  atoms := (map_snd_entries _).trans (atoms_ofList xs)
  kept a _ _ h := get?_of_prefix (prefix_register _ a) h
  known h := register_known h
  new {a} h := by
    have hr := register_new h
    have hget := get?_register (ofList xs) a
    change ((ofList xs).register a).2 = _ ∧ ((ofList xs).register a).1.size = _ ∧
      ((ofList xs).register a).1.get? _ = _
    rw [hr] at hget ⊢
    exact ⟨rfl, by simp [operations, push, size], hget⟩

end SymbolTable

/-- A vector that only grows and gives each value that is pushed a key of 32 bits. The values are
listed by `values` in the order in which they were pushed. -/
structure Arena (α : Type) where
  Contents : Type
  empty : Contents
  push : Contents → α → Contents × UInt32
  get? : Contents → UInt32 → Option α
  size : Contents → Nat
  entries : Contents → List (UInt32 × α)
  values : Contents → List α

namespace Arena

/-- How many values there may be: the greatest number of 32 bits is no key. -/
def capacity : Nat := Nat.pow 2 32 - 1

/-- The keys are given in order from zero on. -/
structure Dense (A : Arena α) : Prop where
  empty : A.values A.empty = []
  push (c : A.Contents) (a : α) (h : A.size c < capacity) :
    A.values (A.push c a).1 = A.values c ++ [a] ∧ (A.push c a).2 = UInt32.ofNat (A.size c)
  get? (c : A.Contents) (k : UInt32) : A.get? c k = (A.values c)[k.toNat]?
  size (c : A.Contents) : A.size c = (A.values c).length
  entries (c : A.Contents) :
    A.entries c = (A.values c).zipIdx.map fun (a, i) => (UInt32.ofNat i, a)

end Arena

/-- The atoms in a vector, and the key of each of them in a hash map. -/
structure Registry [Hashable α] (A : Arena α) where
  atoms : A.Contents
  lookup : Std.HashMap α UInt32

namespace Registry

open Arena (capacity)

variable [Hashable α] {A : Arena α} {r : Registry A} {k : UInt32}

def empty (A : Arena α) : Registry A := ⟨A.empty, ∅⟩

def register (r : Registry A) (a : α) : Registry A × UInt32 :=
  match r.lookup[a]? with
  | some k => (r, k)
  | none =>
    let (atoms, k) := A.push r.atoms a
    (⟨atoms, r.lookup.insert a k⟩, k)

def find? (r : Registry A) (a : α) : Option UInt32 := r.lookup[a]?

def get? (r : Registry A) (k : UInt32) : Option α := A.get? r.atoms k

def size (r : Registry A) : Nat := A.size r.atoms

def entries (r : Registry A) : List (UInt32 × α) := A.entries r.atoms

/-- The registry after every atom of a list has been registered. -/
def ofList (A : Arena α) (xs : List α) : Registry A :=
  xs.foldl (fun r a => (r.register a).1) (.empty A)

def operations (A : Arena α) : Operations (Registry A) UInt32 α :=
  ⟨register, find?, get?, size, entries⟩

/-- The vector holds the atoms of a table, and the hash map their indices. -/
structure Represents (r : Registry A) (t : SymbolTable α) : Prop where
  values : A.values r.atoms = t.atoms
  lookup (a : α) : r.lookup[a]? = (t.find? a).map UInt32.ofNat

theorem represents_empty (hA : A.Dense) : Represents (.empty A) (.empty : SymbolTable α) where
  values := hA.empty
  lookup _ := Std.HashMap.getElem?_empty

theorem Represents.size_eq (hA : A.Dense) (h : Represents r t) : r.size = t.size := by
  rw [size, hA.size, h.values]
  rfl

theorem register_known (h : r.find? a = some k) : r.register a = (r, k) := by
  unfold find? at h
  rw [register, h]

theorem register_new (h : r.find? a = none) : r.register a =
    (⟨(A.push r.atoms a).1, r.lookup.insert a (A.push r.atoms a).2⟩, (A.push r.atoms a).2) := by
  unfold find? at h
  rw [register, h]

/-- One registration leaves vector and hash map in step, and gives the same index as the table. -/
theorem Represents.register (hA : A.Dense) (h : Represents r t) (hlt : t.size < capacity) (a : α) :
    Represents (r.register a).1 (t.register a).1 ∧
      (r.register a).2 = UInt32.ofNat (t.register a).2 := by
  cases hf : t.find? a with
  | some i =>
    have hr : r.find? a = some (UInt32.ofNat i) := by
      rw [find?, h.lookup, hf, Option.map_some]
    rw [register_known hr, SymbolTable.register_known hf]
    exact ⟨h, rfl⟩
  | none =>
    have hr : r.find? a = none := by
      rw [find?, h.lookup, hf, Option.map_none]
    have hsize : A.size r.atoms = t.size := h.size_eq hA
    obtain ⟨hvalues, hkey⟩ := hA.push r.atoms a (hsize ▸ hlt)
    rw [hsize] at hkey
    rw [register_new hr, SymbolTable.register_new hf]
    refine ⟨⟨?_, fun b => ?_⟩, hkey⟩
    · rw [hvalues, h.values]
      rfl
    · dsimp only
      rw [Std.HashMap.getElem?_insert, SymbolTable.find?_push, hkey, h.lookup]
      by_cases hb : a = b
      · simp [hb]
      · simp [hb]

/-- However many registrations there are, vector and hash map stay in step. -/
theorem represents_ofList (hA : A.Dense) (hlt : (SymbolTable.ofList xs).size < capacity) :
    Represents (ofList A xs) (SymbolTable.ofList xs) := by
  induction xs using List.reverseRecOn with
  | nil => exact represents_empty hA
  | append_singleton xs a ih =>
    have htable : SymbolTable.ofList (xs ++ [a]) = ((SymbolTable.ofList xs).register a).1 := by
      rw [SymbolTable.ofList, List.foldl_append]
      rfl
    have hregistry : ofList A (xs ++ [a]) = ((ofList A xs).register a).1 := by
      rw [ofList, List.foldl_append]
      rfl
    rw [htable] at hlt ⊢
    have hbefore := Nat.lt_of_le_of_lt (SymbolTable.size_le_register _ a) hlt
    rw [hregistry]
    exact ((ih hbefore).register hA hbefore a).1

theorem toNat_key (hi : i < capacity) : (UInt32.ofNat i).toNat = i :=
  UInt32.toNat_ofNat_of_lt' (Nat.lt_of_lt_of_le hi (Nat.sub_le _ _))

theorem Represents.get?_eq (hA : A.Dense) (h : Represents r t) (k : UInt32) :
    r.get? k = t.get? k.toNat := by
  rw [get?, hA.get?, h.values]
  rfl

/-- The vector has each atom under the key of its index. -/
theorem Represents.get?_key (hA : A.Dense) (h : Represents r t) (hlt : t.size < capacity)
    (ha : t.get? i = some a) : r.get? (UInt32.ofNat i) = some a := by
  have hsize := SymbolTable.isSome_get?.mp (Option.isSome_of_eq_some ha)
  rw [h.get?_eq hA, toNat_key (Nat.lt_trans hsize hlt)]
  exact ha

theorem Represents.entries_eq (hA : A.Dense) (h : Represents r t) :
    r.entries = t.entries.map fun (i, a) => (UInt32.ofNat i, a) := by
  rw [entries, hA.entries, h.values, SymbolTable.entries, List.map_map]
  rfl

theorem Represents.find?_eq_some_iff (hA : A.Dense) (h : Represents r t) (hlt : t.size < capacity) :
    r.find? a = some k ↔ r.get? k = some a := by
  rw [find?, h.lookup, Option.map_eq_some_iff]
  constructor
  · rintro ⟨i, hi, rfl⟩
    exact h.get?_key hA hlt (SymbolTable.find?_eq_some_iff.mp hi)
  · intro hk
    rw [h.get?_eq hA] at hk
    exact ⟨k.toNat, SymbolTable.find?_eq_some_iff.mpr hk, UInt32.ofNat_toNat⟩

theorem Represents.used_iff (hA : A.Dense) (h : Represents r t) (hlt : t.size < capacity) :
    (r.get? k).isSome ↔ ∃ i < r.size, UInt32.ofNat i = k := by
  rw [h.get?_eq hA, SymbolTable.isSome_get?, h.size_eq hA]
  constructor
  · intro hk
    exact ⟨k.toNat, hk, UInt32.ofNat_toNat⟩
  · rintro ⟨i, hi, rfl⟩
    rwa [toNat_key (Nat.lt_trans hi hlt)]

theorem Represents.mem_entries (hA : A.Dense) (h : Represents r t) (hlt : t.size < capacity) :
    (k, a) ∈ r.entries ↔ r.get? k = some a := by
  rw [h.entries_eq hA, List.mem_map]
  constructor
  · rintro ⟨⟨i, b⟩, hmem, he⟩
    obtain ⟨rfl, rfl⟩ := Prod.mk.inj he
    exact h.get?_key hA hlt (SymbolTable.mem_entries.mp hmem)
  · intro hk
    rw [h.get?_eq hA] at hk
    exact ⟨(k.toNat, a), SymbolTable.mem_entries.mpr hk, Prod.ext UInt32.ofNat_toNat rfl⟩

theorem Represents.kept (hA : A.Dense) (h : Represents r t) (hlt : t.size < capacity) (a : α)
    (hb : r.get? k = some b) : (r.register a).1.get? k = some b := by
  rw [h.get?_eq hA] at hb
  rw [(h.register hA hlt a).1.get?_eq hA]
  exact SymbolTable.get?_of_prefix (t.prefix_register a) hb

theorem Represents.new (hA : A.Dense) (h : Represents r t) (hlt : t.size < capacity)
    (hn : r.find? a = none) : (r.register a).2 = UInt32.ofNat r.size ∧
      (r.register a).1.size = r.size + 1 ∧
      (r.register a).1.get? (UInt32.ofNat r.size) = some a := by
  have hnone : t.find? a = none := by
    rw [find?, h.lookup] at hn
    exact Option.map_eq_none_iff.mp hn
  have hget := t.get?_register a
  obtain ⟨hafter, hkey⟩ := h.register hA hlt a
  rw [hafter.size_eq hA, hafter.get?_eq hA, hkey, h.size_eq hA, toNat_key hlt]
  rw [SymbolTable.register_new hnone] at hget ⊢
  exact ⟨rfl, by simp [SymbolTable.push, SymbolTable.size], hget⟩

theorem Represents.coherent (hA : A.Dense) (h : Represents r t) (hlt : t.size < capacity)
    (hx : t.atoms = xs.eraseDups) : (operations A).Coherent UInt32.ofNat r xs where
  find?_iff _ _ := h.find?_eq_some_iff hA hlt
  used _ := h.used_iff hA hlt
  distinct {i j} hi hj he := by
    change i < r.size at hi
    change j < r.size at hj
    rw [h.size_eq hA] at hi hj
    have hnat := congrArg UInt32.toNat he
    rwa [toNat_key (Nat.lt_trans hi hlt), toNat_key (Nat.lt_trans hj hlt)] at hnat
  entry _ _ := h.mem_entries hA hlt
  keys := by
    change r.entries.map Prod.fst = (List.range r.size).map UInt32.ofNat
    rw [h.entries_eq hA, h.size_eq hA, ← SymbolTable.map_fst_entries, List.map_map, List.map_map]
    rfl
  atoms := by
    change r.entries.map Prod.snd = xs.eraseDups
    rw [h.entries_eq hA, ← hx, ← SymbolTable.map_snd_entries, List.map_map]
    rfl
  kept a _ _ hb := h.kept hA hlt a hb
  known hk := register_known hk
  new hn := h.new hA hlt hn

end Registry

/-- Whatever is registered, a table and a vector with a hash map beside it, as long as the keys
suffice, have the same atoms under the same indices, and both of them find each atom where they hold
it. -/
theorem registration_coherent [Hashable α] (A : Arena α) (hA : A.Dense) (xs : List α)
    (hlt : xs.eraseDups.length < Arena.capacity) :
    (SymbolTable.operations α).Coherent id (.ofList xs) xs ∧
      (Registry.operations A).Coherent UInt32.ofNat (.ofList A xs) xs ∧
      (Registry.ofList A xs).Represents (SymbolTable.ofList xs) := by
  have hatoms := SymbolTable.atoms_ofList xs
  have hsize : (SymbolTable.ofList xs).size < Arena.capacity := by
    rwa [SymbolTable.size, hatoms]
  have h := Registry.represents_ofList hA hsize
  exact ⟨SymbolTable.coherent_ofList xs, h.coherent hA hsize hatoms, h⟩

/-- An array whose places are the keys. -/
def Arena.vector (α : Type) : Arena α where
  Contents := Array α
  empty := #[]
  push values a := (values.push a, UInt32.ofNat values.size)
  get? values k := values[k.toNat]?
  size values := values.size
  entries values := values.toList.zipIdx.map fun (a, i) => (UInt32.ofNat i, a)
  values values := values.toList

omit [DecidableEq α] in
theorem Arena.dense_vector : (Arena.vector α).Dense where
  empty := rfl
  push _ _ _ := ⟨Array.toList_push, rfl⟩
  get? _ _ := Array.getElem?_toList.symm
  size _ := Array.length_toList.symm
  entries _ := rfl

instance : Hashable Binary64 := ⟨fun x => hash x.bits⟩

/-- Both zeros and no number. -/
def unusual : List Binary64 := [.zero, ⟨0x8000000000000000⟩, .zero, ⟨0x7FF8000000000000⟩]

theorem registration_coherent_unusual :
    unusual.eraseDups.length < Arena.capacity ∧
      (SymbolTable.operations Binary64).Coherent id (.ofList unusual) unusual ∧
      (Registry.operations (.vector Binary64)).Coherent UInt32.ofNat (.ofList _ unusual) unusual ∧
      (Registry.ofList (.vector Binary64) unusual).find? ⟨0x8000000000000000⟩ = some 1 ∧
      (Registry.ofList (.vector Binary64) unusual).size = 3 := by
  have hlt : unusual.eraseDups.length < Arena.capacity := by decide
  obtain ⟨htable, hregistry, hsame⟩ :=
    registration_coherent (.vector Binary64) Arena.dense_vector unusual hlt
  refine ⟨hlt, htable, hregistry, ?_, ?_⟩
  · rw [Registry.find?, hsame.lookup]
    decide
  · rw [hsame.size_eq Arena.dense_vector]
    decide

end Descent
