/-!
# Ordered maps

A finite map that remembers the order in which its keys first came. Inserting under a key that
is there keeps its place and replaces its value, so no key is there twice; the type carries that
fact.
-/

namespace QueryViews

variable {κ α β : Type}

/-! ## Lists of entries -/

/-- Replaces each value by what `f` makes of it and of its place, counted from `start`. -/
def indexEntries (f : Nat → α → β) (start : Nat) : List (κ × α) → List (κ × β)
  | [] => []
  | (k, a) :: rest => (k, f start a) :: indexEntries f (start + 1) rest

/-- Values that depend on their place are put in without any change to the keys. -/
theorem map_fst_indexEntries (f : Nat → α → β) (start : Nat) (l : List (κ × α)) :
    (indexEntries f start l).map Prod.fst = l.map Prod.fst := by
  induction l generalizing start with
  | nil => rfl
  | cons p rest ih =>
    obtain ⟨k, a⟩ := p
    rw [indexEntries, List.map_cons, List.map_cons, ih]

section Entries

variable [DecidableEq κ]

/-- Replaces the value of a key where it stands, or puts the key at the end. -/
def insertEntry (k : κ) (a : α) : List (κ × α) → List (κ × α)
  | [] => [(k, a)]
  | (j, b) :: rest => if j = k then (k, a) :: rest else (j, b) :: insertEntry k a rest

/-- Putting a value in adds its key at most. -/
theorem mem_keys_insertEntry {k j : κ} {a : α} {l : List (κ × α)} :
    j ∈ (insertEntry k a l).map Prod.fst ↔ j = k ∨ j ∈ l.map Prod.fst := by
  induction l with
  | nil => simp [insertEntry]
  | cons p rest ih =>
    obtain ⟨i, b⟩ := p
    by_cases h : i = k
    · simp [insertEntry, h]
    · simp only [insertEntry, h, if_false, List.map_cons, List.mem_cons, ih]
      grind

/-- A key that is there is not added again. -/
theorem nodup_insertEntry {k : κ} {a : α} {l : List (κ × α)} (h : (l.map Prod.fst).Nodup) :
    ((insertEntry k a l).map Prod.fst).Nodup := by
  induction l with
  | nil => simp [insertEntry]
  | cons p rest ih =>
    obtain ⟨i, b⟩ := p
    simp only [List.map_cons, List.nodup_cons] at h
    by_cases hi : i = k
    · subst hi
      simpa [insertEntry] using h
    · simp only [insertEntry, hi, if_false, List.map_cons, List.nodup_cons, mem_keys_insertEntry]
      exact ⟨by simpa [hi] using h.1, ih h.2⟩

end Entries

/-! ## Maps -/

/-- Pairs of a key and a value, in the order in which the keys first came. -/
structure OrderedMap (κ α : Type) where
  entries : List (κ × α)
  nodup_keys : (entries.map Prod.fst).Nodup
  deriving DecidableEq

namespace OrderedMap

variable [DecidableEq κ]

/-- The map without entries. -/
def empty : OrderedMap κ α := ⟨[], by simp⟩

/-- The keys, in the order in which they came in. -/
def keys (m : OrderedMap κ α) : List κ := m.entries.map Prod.fst

/-- The value of a key. -/
def get? (m : OrderedMap κ α) (k : κ) : Option α :=
  (m.entries.find? (·.1 = k)).map Prod.snd

/-- Whether there is a value for a key. -/
def contains (m : OrderedMap κ α) (k : κ) : Bool := (m.get? k).isSome

/-- Whether there are no entries. -/
def isEmpty (m : OrderedMap κ α) : Bool := m.entries.isEmpty

/-- The number of entries. -/
def size (m : OrderedMap κ α) : Nat := m.entries.length

/-- Gives the key the value, at the place the key has or else at the end. -/
def insert (m : OrderedMap κ α) (k : κ) (a : α) : OrderedMap κ α :=
  ⟨insertEntry k a m.entries, nodup_insertEntry m.nodup_keys⟩

/-- Inserts the pairs of a list from left to right. -/
def insertAll (m : OrderedMap κ α) (l : List (κ × α)) : OrderedMap κ α :=
  l.foldl (fun m p => m.insert p.1 p.2) m

/-- The map of entries put in one by one; of two with one key, the later value counts. -/
def ofList (l : List (κ × α)) : OrderedMap κ α := empty.insertAll l

/-- What `f` makes of each value and of its place, counted from `start`, under the same key. -/
def mapIdx (m : OrderedMap κ α) (f : Nat → α → β) (start : Nat) : OrderedMap κ β where
  entries := indexEntries f start m.entries
  nodup_keys := by
    rw [map_fst_indexEntries]
    exact m.nodup_keys

@[simp] theorem get?_empty (k : κ) : (empty : OrderedMap κ α).get? k = none := rfl

/-- A value put in is found; those of other keys stay as they are. -/
@[simp] theorem get?_insert (m : OrderedMap κ α) (k j : κ) (a : α) :
    (m.insert k a).get? j = if k = j then some a else m.get? j := by
  obtain ⟨l, hl⟩ := m
  simp only [get?, insert]
  clear hl
  induction l with
  | nil => by_cases h : k = j <;> simp [insertEntry, h]
  | cons p rest ih =>
    obtain ⟨i, b⟩ := p
    by_cases hi : i = k
    · subst hi
      by_cases hj : i = j <;> simp [insertEntry, hj]
    · by_cases hj : i = j
      · subst hj
        have : k ≠ i := fun h => hi h.symm
        simp [insertEntry, hi, this]
      · simp only [insertEntry, hi, if_false]
        simpa [hj] using ih

end OrderedMap

end QueryViews
