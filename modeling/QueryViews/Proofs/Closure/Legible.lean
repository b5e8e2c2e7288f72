import QueryViews.Closure.Encoding
import QueryViews.Proofs.Outcome
import QueryViews.Proofs.Text.Utf8
import Mathlib.Algebra.Group.Nat.Defs

/-!
# Legible encodings

An encoding is **legible** when what it wrote can be told from what follows: equal bytes start
with encodings of related things, and go on equally. The relation is equality where order carries
meaning, and equality up to order where it does not.

* **texts and bytes** are legible by their length (`string_legible`, `sized_legible`);
* **sequences** are read one element after the other (`sequence_legible`);
* **unordered collections** are legible up to order: sorting forgets where an element stood, and
  the length before each element keeps them apart (`unordered_legible`).

A length is written in four bytes, so all of this holds of things shorter than `2 ^ 32`.
-/

namespace QueryViews

namespace Encoding

/-- Bytes that start alike with two encodings start with encodings of related things, and go on
alike. -/
def Legible {α : Type} (Fits : α → Prop) (R : α → α → Prop) (encode : α → Bytes) : Prop :=
  ∀ ⦃a b : α⦄ ⦃r r' : Bytes⦄, Fits a → Fits b → encode a ++ r = encode b ++ r' → R a b ∧ r = r'

/-- Lengths that four bytes can hold. -/
def Short (n : Nat) : Prop := n < 2 ^ 32

/-- Texts whose length four bytes can hold. -/
def TextFits (s : String) : Prop := Short s.utf8ByteSize

instance (n : Nat) : Decidable (Short n) := inferInstanceAs (Decidable (n < 2 ^ 32))

instance (s : String) : Decidable (TextFits s) := inferInstanceAs (Decidable (Short _))

/-- Sequences of few enough elements, each of which fits. -/
structure SequenceFits {α : Type} (Fits : α → Prop) (items : List α) : Prop where
  length : Short items.length
  item : ∀ a ∈ items, Fits a

/-- Collections of few enough elements, each of which fits and has a short encoding. -/
structure CollectionFits {α : Type} (Fits : α → Prop) (encode : α → Bytes) (items : List α) :
    Prop where
  length : Short items.length
  item : ∀ a ∈ items, Fits a
  encoded : ∀ a ∈ items, Short (encode a).length

variable {α : Type} {Fits : α → Prop} {R : α → α → Prop} {encode : α → Bytes}

/-- Legible encodings that are the whole of what was written. -/
theorem Legible.related (h : Legible Fits R encode) {a b : α} (ha : Fits a) (hb : Fits b)
    (he : encode a = encode b) : R a b := by
  have happ : encode a ++ [] = encode b ++ [] := by rw [he]
  exact (h ha hb happ).1

/-! ## Primitives -/

/-- Four bytes tell a number up to multiples of `2 ^ 32`. -/
theorem mod_eq_of_word_eq {m n : Nat} (h : word m = word n) : m % 2 ^ 32 = n % 2 ^ 32 := by
  simp only [word, List.cons.injEq, and_true, ← UInt8.toNat_inj, UInt8.toNat_ofNat',
    Nat.shiftRight_eq_div_pow] at h
  obtain ⟨h3, h2, h1, h0⟩ := h
  omega

/-- A short number can be read back from four bytes. -/
theorem word_legible : Legible Short (· = ·) word := by
  intro m n r r' hm hn h
  obtain ⟨hw, hr⟩ := List.append_inj h rfl
  have hmod := mod_eq_of_word_eq hw
  rw [Nat.mod_eq_of_lt hm, Nat.mod_eq_of_lt hn] at hmod
  exact ⟨hmod, hr⟩

/-- An integer can be read back from eight bytes. -/
theorem int64_legible : Legible (fun _ => True) (· = ·) int64 := by
  intro i j r r' _ _ h
  obtain ⟨hi, hr⟩ := List.append_inj h rfl
  obtain ⟨hhigh, hlow⟩ := List.append_inj hi rfl
  have hhigh := mod_eq_of_word_eq hhigh
  have hlow := mod_eq_of_word_eq hlow
  have hi := i.toUInt64.toNat_lt
  have hj := j.toUInt64.toNat_lt
  -- the high and the low word together are the whole number
  have hn : i.toUInt64.toNat = j.toUInt64.toNat := by
    rw [Nat.shiftRight_eq_div_pow, Nat.shiftRight_eq_div_pow] at hhigh
    omega
  cases i
  cases j
  exact ⟨congrArg Int64.ofUInt64 (UInt64.toNat_inj.1 hn), hr⟩

theorem flag_legible : Legible (fun _ => True) (· = ·) flag := by
  intro a b r r' _ _ h
  obtain ⟨hf, hr⟩ := List.append_inj h rfl
  cases a <;> cases b <;> simp_all [flag]

/-- Bytes that are not too many can be read back behind their number. -/
theorem sized_legible : Legible (fun bytes : Bytes => Short bytes.length) (· = ·) sized := by
  intro a b r r' ha hb h
  rw [sized, sized, List.append_assoc, List.append_assoc] at h
  obtain ⟨hlen, h⟩ := word_legible ha hb h
  exact List.append_inj h hlen

/-- A text that is not too long can be read back. -/
theorem string_legible : Legible TextFits (· = ·) string := by
  intro s t r r' hs ht h
  rw [TextFits, ← length_toUTF8_toList] at hs ht
  obtain ⟨hbytes, hr⟩ := sized_legible hs ht h
  exact ⟨eq_of_toUTF8_toList_eq hbytes, hr⟩

/-! ## Collections -/

/-- Elements written one after another can be read one after another, if it is known how many there
are. -/
theorem flatMap_legible (he : Legible Fits R encode) {items items' : List α} {r r' : Bytes}
    (hlen : items.length = items'.length) (hi : ∀ a ∈ items, Fits a) (hi' : ∀ a ∈ items', Fits a)
    (h : items.flatMap encode ++ r = items'.flatMap encode ++ r') :
    List.Forall₂ R items items' ∧ r = r' := by
  induction items generalizing items' with
  | nil =>
    obtain rfl := List.length_eq_zero_iff.1 hlen.symm
    exact ⟨.nil, h⟩
  | cons a items ih =>
    have hpos : 0 < items'.length := by simp [← hlen]
    obtain ⟨b, items', rfl⟩ := List.exists_cons_of_length_pos hpos
    simp only [List.flatMap_cons, List.append_assoc] at h
    obtain ⟨hab, h⟩ := he (hi a (by simp)) (hi' b (by simp)) h
    obtain ⟨hrest, hr⟩ := ih (by simpa using hlen) (fun x hx => hi x (by simp [hx]))
      (fun x hx => hi' x (by simp [hx])) h
    exact ⟨.cons hab hrest, hr⟩

/-- A collection in its order can be read back. -/
theorem sequence_legible (he : Legible Fits R encode) :
    Legible (SequenceFits Fits) (List.Forall₂ R) (sequence encode) := by
  intro items items' r r' hi hi' h
  rw [sequence, sequence, List.append_assoc, List.append_assoc] at h
  obtain ⟨hlen, h⟩ := word_legible hi.length hi'.length h
  exact flatMap_legible he hlen hi.item hi'.item h

/-- Sorted parts can be told from what follows, and were the same parts before they were sorted. -/
theorem sorted_legible : Legible (SequenceFits fun part : Bytes => Short part.length) List.Perm
    sorted := by
  intro parts parts' r r' hp hp' h
  have fits : ∀ {l : List Bytes}, SequenceFits (fun part : Bytes => Short part.length) l →
      SequenceFits (fun part : Bytes => Short part.length)
        (l.mergeSort fun a b => decide (a ≤ b)) := by
    intro l hl
    exact ⟨by simpa using hl.length, fun a ha => hl.item a (List.mem_mergeSort.1 ha)⟩
  obtain ⟨hsorted, hr⟩ := sequence_legible sized_legible (fits hp) (fits hp') h
  rw [List.forall₂_eq_eq_eq] at hsorted
  refine ⟨?_, hr⟩
  calc
    parts.Perm (parts.mergeSort fun a b => decide (a ≤ b)) := (List.mergeSort_perm _ _).symm
    _ = parts'.mergeSort fun a b => decide (a ≤ b) := hsorted
    List.Perm _ parts' := List.mergeSort_perm _ _

/-- Equal encodings, up to order, of elements that are told apart by their encodings. -/
theorem rearranged_of_map_perm {items items' : List α}
    (h : ∀ a ∈ items, ∀ b ∈ items', encode a = encode b → R a b)
    (hp : (items.map encode).Perm (items'.map encode)) : Rearranged R items items' := by
  have heq : Multiset.map encode (items : Multiset α) = Multiset.map encode (items' : Multiset α) :=
    Multiset.coe_eq_coe.2 hp
  rw [← Multiset.rel_eq, Multiset.rel_map] at heq
  exact heq.mono fun a ha b hb hab => h a ha b hb hab

/-- The encodings of a collection that fits are a sequence that fits. -/
theorem CollectionFits.encodings {items : List α} (h : CollectionFits Fits encode items) :
    SequenceFits (fun part : Bytes => Short part.length) (items.map encode) := by
  refine ⟨by simpa using h.length, fun part hpart => ?_⟩
  obtain ⟨a, ha, rfl⟩ := List.mem_map.1 hpart
  exact h.encoded a ha

/-- Unordered collections whose elements are told apart by their encodings. -/
theorem rearranged_of_unordered_append_eq {items items' : List α} {r r' : Bytes}
    (hi : CollectionFits Fits encode items) (hi' : CollectionFits Fits encode items')
    (he : ∀ a ∈ items, ∀ b ∈ items', encode a = encode b → R a b)
    (h : unordered encode items ++ r = unordered encode items' ++ r') :
    Rearranged R items items' ∧ r = r' := by
  obtain ⟨hp, hr⟩ := sorted_legible hi.encodings hi'.encodings h
  exact ⟨rearranged_of_map_perm he hp, hr⟩

/-- A collection without an order can be read back up to order, since its sorted encodings can be
read back. -/
theorem unordered_legible (he : Legible Fits R encode) :
    Legible (CollectionFits Fits encode) (Rearranged R) (unordered encode) := by
  intro items items' r r' hi hi' h
  have hrelated : ∀ a ∈ items, ∀ b ∈ items', encode a = encode b → R a b :=
    fun a ha b hb => he.related (hi.item a ha) (hi'.item b hb)
  exact rearranged_of_unordered_append_eq hi hi' hrelated h

end Encoding

end QueryViews
