/-!
# Tables

A finite map kept as its entries in ascending key order.  Annotations, the members of an arbitrary
JSON object, the child traces of a tree and the contents of a store are all tables, because all of
them are listed by ascending key.

## Main definitions

* `Table` — entries, ascending by key
* `Table.insert`, `Table.get?`, `Table.erase`, `Table.modify`
* `Table.ofList` — entries in any order, where the last of several entries for one key stands

## Design notes

The representation is a plain list, so that it can be written inside a nested inductive type.
Insertion is a single pass that replaces on collision; the look-up laws `get?_insert_self` and
`get?_insert_of_ne` therefore hold with no assumption on the order of the entries.
-/

namespace CausalTrace

/-- A finite map: its entries, in ascending key order. -/
abbrev Table (κ α : Type) := List (κ × α)

namespace Table

variable {κ α β : Type}

/-- The entries are strictly ascending by key, hence no key occurs twice. -/
def Sorted [LT κ] (t : Table κ α) : Prop := t.Pairwise fun a b => a.1 < b.1

/-- The keys, ascending. -/
def keys (t : Table κ α) : List κ := t.map Prod.fst

/-- The values, by ascending key. -/
def values (t : Table κ α) : List α := t.map Prod.snd

/-- The value stored under a key. -/
def get? [DecidableEq κ] : Table κ α → κ → Option α
  | [], _ => none
  | (k', v) :: rest, k => if k' = k then some v else get? rest k

/-- Whether a key is stored. -/
def contains [DecidableEq κ] (t : Table κ α) (k : κ) : Bool := (t.get? k).isSome

/-- Stores a value under a key, in place of the value that was there. -/
def insert [LT κ] [DecidableLT κ] [DecidableEq κ] : Table κ α → κ → α → Table κ α
  | [], k, v => [(k, v)]
  | (k', v') :: rest, k, v =>
    if k < k' then (k, v) :: (k', v') :: rest
    else if k' = k then (k, v) :: rest
    else (k', v') :: insert rest k v

/-- Removes a key and its value. -/
def erase [DecidableEq κ] (t : Table κ α) (k : κ) : Table κ α := t.filter fun e => e.1 ≠ k

/-- Changes the value stored under a key; a key that is not stored stays so. -/
def modify [DecidableEq κ] (t : Table κ α) (k : κ) (f : α → α) : Table κ α :=
  t.map fun e => if e.1 = k then (e.1, f e.2) else e

/-- The table of the given entries; of several entries for one key the last stands. -/
def ofList [LT κ] [DecidableLT κ] [DecidableEq κ] (entries : List (κ × α)) : Table κ α :=
  entries.foldl (fun t e => t.insert e.1 e.2) []

/-! ### Look-up laws -/

@[simp] theorem get?_nil [DecidableEq κ] (k : κ) : get? ([] : Table κ α) k = none := rfl

@[simp] theorem get?_insert_self [LT κ] [DecidableLT κ] [DecidableEq κ] (t : Table κ α) (k : κ)
    (v : α) : (t.insert k v).get? k = some v := by
  induction t with
  | nil => simp [insert, get?]
  | cons e rest ih =>
    obtain ⟨k', v'⟩ := e
    simp only [insert]
    split
    · simp [get?]
    · split
      · simp [get?]
      · simp [get?, *]

theorem get?_insert_of_ne [LT κ] [DecidableLT κ] [DecidableEq κ] (t : Table κ α) {k j : κ} (v : α)
    (h : k ≠ j) : (t.insert k v).get? j = t.get? j := by
  induction t with
  | nil => simp [insert, get?, h]
  | cons e rest ih =>
    obtain ⟨k', v'⟩ := e
    simp only [insert]
    split
    · simp [get?, h]
    · split
      · subst k'
        simp [get?, h]
      · simp [get?, ih]

end Table

end CausalTrace
