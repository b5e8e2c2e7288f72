import QueryViews.Act
import QueryViews.OrderedMap

/-!
# Memo tables

A memo table keeps one value under a key for good. What a request does depends on the slot of its
key:

* **hit** — a filled slot gives its value, and nothing changes (`getOrCompute_of_some`);
* **miss** — otherwise the key gets a slot, the value is computed and then **published**
  (`getOrCompute_of_ok`);
* **fault** — a computation that ends without a value publishes nothing, so that the next request
  computes again (`getOrCompute_of_error`).

A filled slot is never changed: publishing under a key that has a value keeps the value
(`get?_publish_of_some`).

A computation may itself use the table, for other keys. It is therefore a step on a whole state, of
which the table is a part, and a `Shelf` says which part.
-/

namespace QueryViews

/-- Slots under keys, filled or not yet filled. -/
structure Memo (κ α : Type) where
  slots : OrderedMap κ (Option α)

namespace Memo

variable {κ α : Type} [DecidableEq κ]

/-- A memo that nothing was asked of. -/
def empty : Memo κ α := ⟨OrderedMap.empty⟩

/-- The value published under a key. -/
def get? (m : Memo κ α) (k : κ) : Option α := (m.slots.get? k).join

/-- How many keys have a value. -/
def size (m : Memo κ α) : Nat := (m.slots.entries.filter (·.2.isSome)).length

/-- How many keys have a slot. -/
def slotCount (m : Memo κ α) : Nat := m.slots.size

/-- Makes sure that a key has a slot. -/
def reserve (m : Memo κ α) (k : κ) : Memo κ α :=
  if m.slots.contains k then m else ⟨m.slots.insert k none⟩

/-- Fills the slot of a key, unless it is filled. -/
def publish (m : Memo κ α) (k : κ) (a : α) : Memo κ α :=
  match m.get? k with
  | some _ => m
  | none => ⟨m.slots.insert k (some a)⟩

@[simp] theorem get?_empty (k : κ) : (empty : Memo κ α).get? k = none := rfl

/-- A reserved slot holds nothing yet. -/
@[simp] theorem get?_reserve (m : Memo κ α) (k j : κ) : (m.reserve k).get? j = m.get? j := by
  unfold reserve
  split
  · rfl
  · rename_i h
    by_cases hk : k = j
    · subst hk
      have : m.slots.get? k = none := by
        simpa [OrderedMap.contains, Option.isSome_eq_false_iff] using h
      simp [get?, this]
    · simp [get?, hk]

/-- What is published first in a slot stays there. -/
theorem get?_publish (m : Memo κ α) (k j : κ) (a : α) :
    (m.publish k a).get? j = if k = j then some ((m.get? k).getD a) else m.get? j := by
  unfold publish
  cases h : m.get? k with
  | some b => by_cases hk : k = j <;> simp_all
  | none => by_cases hk : k = j <;> simp [get?, hk]

/-- A published value stays. -/
theorem get?_publish_of_some {m : Memo κ α} {k j : κ} {a b : α} (h : m.get? j = some b) :
    (m.publish k a).get? j = some b := by
  rw [get?_publish]
  by_cases hk : k = j
  · subst hk; simp [h]
  · simp [hk, h]

end Memo

/-- A memo table as a part of a larger state. -/
structure Shelf (σ κ α : Type) where
  table : σ → Memo κ α
  put : Memo κ α → σ → σ
  table_put : ∀ m s, table (put m s) = m

namespace Shelf

variable {σ κ α : Type} [DecidableEq κ]

/-- The value under a key; computed now if there is none yet, and then published. -/
def getOrCompute (t : Shelf σ κ α) (k : κ) (compute : Act σ Fault α) : Act σ Fault α := fun s =>
  match (t.table s).get? k with
  | some a => (.ok a, s)
  | none =>
    match compute (t.put ((t.table s).reserve k) s) with
    | (.error f, s') => (.error f, s')
    | (.ok a, s') =>
      let m := (t.table s').publish k a
      (.ok ((m.get? k).getD a), t.put m s')

/-- A hit gives the published value and changes nothing. -/
theorem getOrCompute_of_some (t : Shelf σ κ α) {k : κ} (compute : Act σ Fault α) {s : σ} {a : α}
    (h : (t.table s).get? k = some a) : t.getOrCompute k compute s = (.ok a, s) := by
  simp [getOrCompute, h]

/-- A computation that faults publishes nothing. -/
theorem getOrCompute_of_error (t : Shelf σ κ α) {k : κ} {compute : Act σ Fault α} {s s' : σ}
    {f : Fault} (h : (t.table s).get? k = none)
    (hc : compute (t.put ((t.table s).reserve k) s) = (.error f, s')) :
    t.getOrCompute k compute s = (.error f, s') := by
  simp [getOrCompute, h, hc]

/-- A computation that gives a value publishes it, unless it published one itself. -/
theorem getOrCompute_of_ok (t : Shelf σ κ α) {k : κ} {compute : Act σ Fault α} {s s' : σ} {a : α}
    (h : (t.table s).get? k = none)
    (hc : compute (t.put ((t.table s).reserve k) s) = (.ok a, s')) :
    t.getOrCompute k compute s =
      (.ok (((t.table s').get? k).getD a), t.put ((t.table s').publish k a) s') := by
  simp [getOrCompute, h, hc, Memo.get?_publish]

end Shelf

end QueryViews
