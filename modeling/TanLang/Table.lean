import TanLang.Text
/-!
# Tables — values under names

A table holds at most one value under each name. It backs the scopes of a
running program, the fields of instances, the methods of classes and the
scopes that resolution keeps track of. Nothing depends on the order of its
entries: where a table is listed, it is listed by name.
-/

namespace TanLang

/-- Values under names. -/
structure Table (α : Type) where
  /-- The entries; of two with one name only the first counts. -/
  entries : List (Text × α) := []
  deriving DecidableEq

namespace Table

variable {α : Type}

instance : Inhabited (Table α) := ⟨{}⟩

/-- The table with nothing in it. -/
def empty : Table α := {}

/-- The value under a name in a list of entries. -/
def findIn (name : Text) : List (Text × α) → Option α
  | [] => none
  | e :: rest => if e.1 = name then some e.2 else findIn name rest

/-- The entries with a value put under a name, in the place of the one that
was there or else at the end. -/
def putIn (name : Text) (value : α) : List (Text × α) → List (Text × α)
  | [] => [(name, value)]
  | e :: rest => if e.1 = name then (name, value) :: rest else e :: putIn name value rest

/-- The value under a name. -/
def find? (t : Table α) (name : Text) : Option α := findIn name t.entries

/-- Whether there is a value under a name. -/
def contains (t : Table α) (name : Text) : Bool := (t.find? name).isSome

/-- **A value put under a name**, in place of any that was there. -/
def insert (t : Table α) (name : Text) (value : α) : Table α :=
  ⟨putIn name value t.entries⟩

/-- The entries in the byte order of their names. -/
def sorted (t : Table α) : List (Text × α) :=
  t.entries.mergeSort fun a b => Text.before a.1 b.1

/-- Reading back what was put under a name. -/
theorem find?_insert_self (t : Table α) (name : Text) (value : α) :
    (t.insert name value).find? name = some value := by
  obtain ⟨entries⟩ := t
  simp only [insert, find?]
  induction entries with
  | nil => simp [putIn, findIn]
  | cons e rest ih => by_cases h : e.1 = name <;> simp [putIn, findIn, h, ih]

/-- **Putting a value under one name leaves the others alone.** -/
theorem find?_insert_of_ne (t : Table α) {name other : Text} (value : α) (h : other ≠ name) :
    (t.insert name value).find? other = t.find? other := by
  obtain ⟨entries⟩ := t
  simp only [insert, find?]
  induction entries with
  | nil => simp [putIn, findIn, h.symm]
  | cons e rest ih =>
    by_cases he : e.1 = name
    · simp [putIn, findIn, he, h.symm]
    · simp [putIn, findIn, he, ih]

end Table

end TanLang
