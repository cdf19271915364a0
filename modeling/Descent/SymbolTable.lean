/-!
Symbol tables: atoms in the order of their first registration, each once. The index of an atom
never changes.
-/
namespace Descent

structure SymbolTable (α : Type) where
  atoms : List α
  nodup : atoms.Nodup
  deriving DecidableEq, Repr

namespace SymbolTable

variable {α : Type} [DecidableEq α]

def empty : SymbolTable α := ⟨[], List.nodup_nil⟩

def size (t : SymbolTable α) : Nat := t.atoms.length

def isEmpty (t : SymbolTable α) : Bool := t.atoms.isEmpty

/-- The index of an atom. -/
def find? (t : SymbolTable α) (a : α) : Option Nat := t.atoms.idxOf? a

/-- The atom at an index. -/
def get? (t : SymbolTable α) (i : Nat) : Option α := t.atoms[i]?

theorem find?_eq_none_iff {t : SymbolTable α} {a : α} : t.find? a = none ↔ a ∉ t.atoms :=
  List.idxOf?_eq_none_iff

/-- The table with a new atom at its end. -/
def push (t : SymbolTable α) (a : α) (h : t.find? a = none) : SymbolTable α where
  atoms := t.atoms ++ [a]
  nodup := by
    have := find?_eq_none_iff.mp h
    have := t.nodup
    grind

/-- The index of `a`, and the table with `a` at its end if it was not there. -/
def register (t : SymbolTable α) (a : α) : SymbolTable α × Nat :=
  match h : t.find? a with
  | some i => (t, i)
  | none => (t.push a h, t.size)

/-- The table after every atom of a list has been registered. -/
def ofList (atoms : List α) : SymbolTable α :=
  atoms.foldl (fun t a => (t.register a).1) empty

/-- Indices with their atoms. -/
def entries (t : SymbolTable α) : List (Nat × α) :=
  t.atoms.zipIdx.map fun (a, i) => (i, a)

end SymbolTable

end Descent
