/-!
**Tables that remember the order of insertion.**

Packages, libraries and catalogs keep what they hold in tables.  The order in which entries came in
is kept, because some answers show it.

Main definitions:

* `VhdlCatalog.Table` — the entries, oldest first;
* `VhdlCatalog.Table.get?`, `VhdlCatalog.Table.contains` — looking up a key;
* `VhdlCatalog.Table.push` — one more entry at the end;
* `VhdlCatalog.Table.put` — a key gets a new value, in its old place if it had one.

Main results:

* `VhdlCatalog.Table.keys_put` — the keys after `put`.
-/

set_option relaxedAutoImplicit false
set_option autoImplicit false

namespace VhdlCatalog

/-- Keys with their values, in the order in which the keys came in. -/
structure Table (κ α : Type) where
  /-- The entries, oldest first. -/
  entries : List (κ × α)

namespace Table

variable {κ α : Type}

/-- No entries. -/
def empty : Table κ α := ⟨[]⟩

/-- The keys, oldest first. -/
def keys (t : Table κ α) : List κ := t.entries.map Prod.fst

/-- The values, oldest first. -/
def values (t : Table κ α) : List α := t.entries.map Prod.snd

/-- The number of entries. -/
def size (t : Table κ α) : Nat := t.entries.length

/-- The table with one more entry at its end. -/
def push (t : Table κ α) (k : κ) (a : α) : Table κ α := ⟨t.entries ++ [(k, a)]⟩

@[simp] theorem keys_empty : (empty : Table κ α).keys = [] := rfl

@[simp] theorem keys_push (t : Table κ α) (k : κ) (a : α) : (t.push k a).keys = t.keys ++ [k] := by
  simp [keys, push]

@[simp] theorem values_push (t : Table κ α) (k : κ) (a : α) :
    (t.push k a).values = t.values ++ [a] := by
  simp [values, push]

@[simp] theorem size_push (t : Table κ α) (k : κ) (a : α) : (t.push k a).size = t.size + 1 := by
  simp [size, push]

variable [DecidableEq κ]

/-- The value of a key. -/
def get? (t : Table κ α) (k : κ) : Option α :=
  (t.entries.find? fun e => decide (e.1 = k)).map Prod.snd

/-- The table has the key. -/
def contains (t : Table κ α) (k : κ) : Bool := decide (k ∈ t.keys)

/-- The table with value `a` for key `k`.  A key that is there keeps its place. -/
def put (t : Table κ α) (k : κ) (a : α) : Table κ α :=
  if t.contains k then ⟨t.entries.map fun e => if e.1 = k then (k, a) else e⟩
  else t.push k a

/-- **The keys after `put`**: as before, with a new key at the end. -/
theorem keys_put (t : Table κ α) (k : κ) (a : α) :
    (t.put k a).keys = if k ∈ t.keys then t.keys else t.keys ++ [k] := by
  unfold put
  by_cases h : k ∈ t.keys
  · simp only [contains, h, decide_true, if_true]
    simp only [keys, List.map_map]
    refine List.map_congr_left ?_
    intro e _
    by_cases he : e.1 = k <;> simp [he]
  · simp [contains, h]

/-- The table that several entries leave behind, put in one after another. -/
def ofPairs (pairs : List (κ × α)) : Table κ α :=
  pairs.foldl (fun t p => t.put p.1 p.2) empty

end Table

end VhdlCatalog
