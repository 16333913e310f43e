/-
Tables of a scope. Each has two halves: what the scope declares itself, and
what it inherited when it was created. The inherited half is a snapshot: it
does not follow what the parent declares later.

In a `Table` an own entry shadows an inherited one. In `Overloads` all
entries of a name count, own ones before inherited ones.
-/
import RoutineScript.Callable
import Std.Data.TreeMap

namespace RoutineScript

-- =================================================================== tables

/-- Entries by name, own and inherited. -/
structure Table (α : Type) where
  own : Std.TreeMap String α
  inherited : Std.TreeMap String α

namespace Table

variable {α : Type}

/-- A table without entries. -/
def empty : Table α := ⟨∅, ∅⟩

instance : Inhabited (Table α) := ⟨empty⟩

/-- What is visible under a name. -/
def get? (t : Table α) (name : String) : Option α :=
  t.own[name]? <|> t.inherited[name]?

/-- Everything that is visible, by name. -/
def visible (t : Table α) : Std.TreeMap String α :=
  t.inherited ∪ t.own

/-- The table of a scope that is created below one with this table. -/
def snapshot (t : Table α) : Table α :=
  ⟨∅, t.visible⟩

/-- Binds a name in the own half. -/
def insertOwn (t : Table α) (name : String) (a : α) : Table α :=
  { t with own := t.own.insert name a }

/-- Binds a name in the inherited half. -/
def insertInherited (t : Table α) (name : String) (a : α) : Table α :=
  { t with inherited := t.inherited.insert name a }

/-- Takes over the own entries of another table. Own entries that are there
already stay. -/
def merge (t other : Table α) : Table α :=
  { t with own := other.own ∪ t.own }

/-- Replaces the inherited half by a snapshot of the parent's table. -/
def inherit (t parent : Table α) : Table α :=
  { t with inherited := parent.visible }

theorem getElem?_visible (t : Table α) (name : String) : t.visible[name]? = t.get? name := by
  simp only [visible, get?, Std.TreeMap.getElem?_union]
  cases t.own[name]? <;> rfl

/-- A new scope sees what its parent sees. -/
theorem get?_snapshot (t : Table α) (name : String) : t.snapshot.get? name = t.get? name := by
  rw [← getElem?_visible t]
  simp only [snapshot, get?]
  simp

theorem get?_insertOwn (t : Table α) (name key : String) (a : α) :
    (t.insertOwn name a).get? key = if name = key then some a else t.get? key := by
  simp only [insertOwn, get?, Std.TreeMap.getElem?_insert, Std.LawfulEqCmp.compare_eq_iff_eq]
  split <;> rfl

theorem getElem?_own_merge (t other : Table α) (name : String) :
    (t.merge other).own[name]? = (t.own[name]? <|> other.own[name]?) := by
  simp only [merge, Std.TreeMap.getElem?_union]
  cases t.own[name]? <;> rfl

end Table

-- ================================================================ overloads

/-- Overloads in the order they were registered, own and inherited. -/
structure Overloads where
  own : List Callable
  inherited : List Callable

namespace Overloads

/-- No overloads. -/
def empty : Overloads := ⟨[], []⟩

instance : Inhabited Overloads := ⟨empty⟩

/-- All overloads, in the order in which they are tried. -/
def all (o : Overloads) : List Callable :=
  o.own ++ o.inherited

/-- The overloads of a name, in the order in which they are tried. -/
def named (o : Overloads) (name : String) : List Callable :=
  o.all.filter (·.name == name)

/-- The own overloads of a name. -/
def ownNamed (o : Overloads) (name : String) : List Callable :=
  o.own.filter (·.name == name)

/-- The overloads of a scope that is created below one with these. -/
def snapshot (o : Overloads) : Overloads :=
  ⟨[], o.all⟩

/-- Adds an own overload behind the others. -/
def add (o : Overloads) (c : Callable) : Overloads :=
  { o with own := o.own ++ [c] }

/-- Takes over the own overloads of another table, behind those of this one. -/
def merge (o other : Overloads) : Overloads :=
  { o with own := o.own ++ other.own }

/-- Replaces the inherited half by a snapshot of the parent's overloads. -/
def inherit (o parent : Overloads) : Overloads :=
  { o with inherited := parent.all }

/-- Drops all overloads of a name, inherited ones too. -/
def drop (o : Overloads) (name : String) : Overloads :=
  ⟨o.own.filter (·.name != name), o.inherited.filter (·.name != name)⟩

/-- A new scope can call what its parent can, in the same order. -/
theorem named_snapshot (o : Overloads) (name : String) :
    o.snapshot.named name = o.named name := by
  simp [snapshot, named, all]

end Overloads

end RoutineScript
