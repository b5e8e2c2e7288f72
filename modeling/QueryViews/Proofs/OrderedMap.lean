import QueryViews.OrderedMap
import Mathlib.Data.List.Nodup
import Mathlib.Data.List.Induction

/-!
# Entries of ordered maps

A map is its entries: two maps with the same entries are equal, and a key has a value exactly if
the pair of them is an entry. Inserting a new key appends; a map made from a list holds, under each
key, the last value that the list has for it.
-/

namespace QueryViews

variable {κ α β γ : Type}

/-- Finds an element of a list by something that tells its elements apart. -/
theorem find?_eq_some_of_nodup [DecidableEq κ] {f : α → κ} {l : List α} (h : (l.map f).Nodup)
    {a : α} (ha : a ∈ l) : l.find? (f · = f a) = some a := by
  cases hfind : l.find? (f · = f a) with
  | none => exact absurd (decide_eq_true rfl) (List.find?_eq_none.1 hfind a ha)
  | some b =>
    have hb : f b = f a := of_decide_eq_true (List.find?_some (p := (f · = f a)) hfind)
    rw [List.inj_on_of_nodup_map h (List.mem_of_find?_eq_some hfind) ha hb]

/-- What tells elements apart tells places apart. -/
theorem place_eq_of_nodup {f : α → κ} {l : List α} (h : (l.map f).Nodup) {i j : Nat} {a b : α}
    (hi : l[i]? = some a) (hj : l[j]? = some b) (hf : f a = f b) : i = j := by
  obtain ⟨hlt, -⟩ := List.getElem?_eq_some_iff.1 hi
  rw [← List.length_map f] at hlt
  refine (List.getElem?_inj hlt h).1 ?_
  rw [List.getElem?_map, List.getElem?_map, hi, hj, Option.map_some, Option.map_some, hf]

namespace OrderedMap

/-- Maps with the same entries in the same order are the same. -/
theorem ext {m m' : OrderedMap κ α} (h : m.entries = m'.entries) : m = m' := by
  obtain ⟨l, hl⟩ := m
  obtain ⟨l', hl'⟩ := m'
  cases h
  rfl

variable [DecidableEq κ] {m : OrderedMap κ α} {k : κ} {a : α}

/-- What is found under a key is an entry, and each entry is found: no key is there twice. -/
theorem get?_eq_some_iff : m.get? k = some a ↔ (k, a) ∈ m.entries := by
  rw [get?, Option.map_eq_some_iff]
  constructor
  · rintro ⟨⟨j, b⟩, hfind, rfl⟩
    have hj := List.find?_some hfind
    have hj : j = k := of_decide_eq_true hj
    exact hj ▸ List.mem_of_find?_eq_some hfind
  · intro h
    exact ⟨(k, a), find?_eq_some_of_nodup m.nodup_keys h, rfl⟩

/-- Something is found under each key. -/
theorem exists_get?_iff : (∃ a, m.get? k = some a) ↔ k ∈ m.keys := by
  simp only [get?_eq_some_iff, keys, List.mem_map, Prod.exists, exists_and_right, exists_eq_right]

/-- A key is contained if it is among the keys. -/
theorem contains_iff : m.contains k = true ↔ k ∈ m.keys := by
  rw [contains, Option.isSome_iff_exists, exists_get?_iff]

omit [DecidableEq κ] in
theorem isEmpty_eq (m : OrderedMap κ α) : m.isEmpty = decide (m.size = 0) := by
  rw [isEmpty, size]
  cases m.entries <;> rfl

/-- A new key goes to the end. -/
theorem entries_insert (h : k ∉ m.keys) (a : α) :
    (m.insert k a).entries = m.entries ++ [(k, a)] := by
  obtain ⟨l, hl⟩ := m
  simp only [insert, keys] at h ⊢
  clear hl
  induction l with
  | nil => rfl
  | cons p l ih =>
    obtain ⟨j, b⟩ := p
    rw [List.map_cons, List.mem_cons, not_or] at h
    rw [insertEntry, if_neg (Ne.symm h.1), ih h.2, List.cons_append]

/-- The last entry of a list is put in last. -/
theorem ofList_append (l : List (κ × α)) (p : κ × α) :
    ofList (l ++ [p]) = (ofList l).insert p.1 p.2 := by
  rw [ofList, insertAll, List.foldl_append]
  rfl

/-- The value of a key in a map made from a list is the last that the list has for it. -/
theorem get?_ofList (l : List (κ × α)) (k : κ) :
    (ofList l).get? k = (l.reverse.find? (·.1 = k)).map Prod.snd := by
  induction l using List.reverseRecOn with
  | nil => rfl
  | append_singleton l p ih =>
    rw [ofList_append, get?_insert, List.reverse_concat, List.find?_cons]
    by_cases hp : p.1 = k
    · rw [if_pos hp, decide_eq_true hp]
      rfl
    · rw [if_neg hp, decide_eq_false hp, ih]

/-- Every value in a map made from a list is one that the list has for its key. -/
theorem mem_of_get?_ofList {l : List (κ × α)} (h : (ofList l).get? k = some a) : (k, a) ∈ l := by
  induction l using List.reverseRecOn with
  | nil => cases h
  | append_singleton l p ih =>
    obtain ⟨j, b⟩ := p
    rw [ofList_append, get?_insert] at h
    by_cases hj : j = k
    · rw [if_pos hj] at h
      cases h
      exact hj ▸ List.mem_append_right l (List.mem_singleton_self _)
    · rw [if_neg hj] at h
      exact List.mem_append_left _ (ih h)

/-- Every key of a list has a value in the map made from it. -/
theorem exists_get?_ofList {l : List (κ × α)} (h : k ∈ l.map Prod.fst) :
    ∃ a, (ofList l).get? k = some a := by
  induction l using List.reverseRecOn with
  | nil => cases h
  | append_singleton l p ih =>
    obtain ⟨j, b⟩ := p
    rw [ofList_append, get?_insert]
    by_cases hj : j = k
    · exact ⟨b, if_pos hj⟩
    · rw [if_neg hj]
      rw [List.map_append, List.mem_append, List.map_singleton, List.mem_singleton] at h
      exact ih (h.resolve_right (Ne.symm hj))

/-- Entries with different keys stay as they are listed. -/
theorem entries_ofList {l : List (κ × α)} (h : (l.map Prod.fst).Nodup) :
    (ofList l).entries = l := by
  induction l using List.reverseRecOn with
  | nil => rfl
  | append_singleton l p ih =>
    rw [List.map_append, List.map_singleton, List.nodup_append] at h
    obtain ⟨hl, -, hp⟩ := h
    have hnew : p.1 ∉ (ofList l).keys := by
      rw [keys, ih hl]
      exact fun hmem => hp _ hmem _ (List.mem_singleton_self _) rfl
    rw [ofList_append, entries_insert hnew, ih hl]

/-- A map made from its own entries is the map. -/
theorem ofList_entries (m : OrderedMap κ α) : ofList m.entries = m :=
  ext (entries_ofList m.nodup_keys)

/-- A value under its key, whatever place was passed for it. -/
theorem get?_mapIdx (m : OrderedMap κ α) (f : Nat → α → β) (start : Nat) (k : κ) :
    ∃ n, (m.mapIdx f start).get? k = (m.get? k).map (f n) := by
  obtain ⟨l, hl⟩ := m
  simp only [get?, mapIdx]
  clear hl
  induction l generalizing start with
  | nil => exact ⟨0, rfl⟩
  | cons p l ih =>
    obtain ⟨j, a⟩ := p
    rw [indexEntries]
    by_cases hj : j = k
    · exact ⟨start, by simp [hj]⟩
    · obtain ⟨n, hn⟩ := ih (start + 1)
      exact ⟨n, by simpa [hj] using hn⟩

end OrderedMap

end QueryViews
