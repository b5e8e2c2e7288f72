import QueryViews.Closure.Hash
import QueryViews.Proofs.Text.Utf8

/-!
# Hexadecimal digits read back

The digits of some bytes are read back as those bytes, and so the text of a closure hash is the
text of that hash. Conversely, any digits of either case are read in pairs, and written again they
are the same in lower case (`Hexadecimal.exists_pairs`); the first byte that is no digit is the
mistake (`Hexadecimal.pairs_eq_notDigit`). A character has a digit among its bytes only if it is
one, so it makes no difference whether digits are looked for among characters or among bytes.
-/

namespace QueryViews

namespace Hexadecimal

/-- The digit of a value, as a byte of text. -/
def digitByte (n : Nat) : UInt8 := UInt8.ofNat (digit n).toNat

/-- A digit is one byte of text. -/
theorem utf8EncodeChar_digit : ∀ n < 16, String.utf8EncodeChar (digit n) = [digitByte n] := by
  decide

/-- The value of a digit can be read back. -/
theorem value?_digitByte : ∀ n < 16, value? (digitByte n) = some n := by decide

/-- Two digits a byte. -/
theorem utf8_encode (bytes : List UInt8) :
    (encode bytes).flatMap String.utf8EncodeChar =
      bytes.flatMap fun b => [digitByte (b.toNat / 16), digitByte (b.toNat % 16)] := by
  induction bytes with
  | nil => rfl
  | cons b rest ih =>
    have hb : b.toNat < 256 := b.toNat_lt
    have hcons : encode (b :: rest) =
        digit (b.toNat / 16) :: digit (b.toNat % 16) :: encode rest := rfl
    rw [hcons, List.flatMap_cons, List.flatMap_cons, ih, utf8EncodeChar_digit _ (by omega),
      utf8EncodeChar_digit _ (by omega)]
    rfl

/-- Bytes can be read back from their digits. -/
theorem pairs_digits (bytes : List UInt8) (position : Nat) :
    pairs position (bytes.flatMap fun b => [digitByte (b.toNat / 16), digitByte (b.toNat % 16)]) =
      .ok bytes := by
  induction bytes generalizing position with
  | nil => rfl
  | cons b rest ih =>
    have hb : b.toNat < 256 := b.toNat_lt
    have hvalue : UInt8.ofNat (16 * (b.toNat / 16) + b.toNat % 16) = b := by
      rw [Nat.div_add_mod, UInt8.ofNat_toNat]
    simp only [List.flatMap_cons, List.cons_append, List.nil_append, pairs]
    rw [value?_digitByte _ (by omega), value?_digitByte _ (by omega), ih]
    simp only [hvalue]
    rfl

/-- There are two digits for each byte. -/
theorem length_digits (bytes : List UInt8) :
    (bytes.flatMap fun b => [digitByte (b.toNat / 16), digitByte (b.toNat % 16)]).length =
      2 * bytes.length := by
  induction bytes with
  | nil => rfl
  | cons b rest ih =>
    simp only [List.flatMap_cons, List.length_append, List.length_cons, List.length_nil, ih]
    omega

/-- The digits of some bytes are read back as the bytes. -/
theorem decode_encode (bytes : List UInt8) :
    decode bytes.length ((encode bytes).flatMap String.utf8EncodeChar) = .ok bytes := by
  have hlength := length_digits bytes
  rw [utf8_encode, decode, hlength, if_neg (by omega), if_neg (by omega), pairs_digits]

/-! ## Digits of either case -/

/-- A digit of either case. -/
def isDigit (c : Char) : Bool :=
  c.isDigit || (decide ('a' ≤ c) && decide (c ≤ 'f')) || (decide ('A' ≤ c) && decide (c ≤ 'F'))

/-- The character that has the byte as its code. -/
def charOf (b : UInt8) : Char := Char.ofNat b.toNat

/-- The digit of the value of a digit is that digit, in lower case. -/
theorem digit_value?_ofNat : ∀ n < 256, (value? (UInt8.ofNat n)).map digit =
    if isDigit (Char.ofNat n) then some (Char.ofNat n).toLower else none := by
  decide +kernel

theorem value?_ofNat_lt : ∀ n < 256, ∀ v ∈ value? (UInt8.ofNat n), v < 16 := by
  decide +kernel

/-- A byte has a value exactly if it is a digit, and the digit of the value is in lower case. -/
theorem digit_value? (b : UInt8) : (value? b).map digit =
    if isDigit (charOf b) then some (charOf b).toLower else none := by
  have h := digit_value?_ofNat b.toNat b.toNat_lt
  rwa [UInt8.ofNat_toNat] at h

/-- A digit has one of sixteen values. -/
theorem value?_lt {b : UInt8} {v : Nat} (h : value? b = some v) : v < 16 := by
  have hlt := value?_ofNat_lt b.toNat b.toNat_lt
  rw [UInt8.ofNat_toNat] at hlt
  exact hlt v h

/-- A digit of either case has a value, and the digit of that is in lower case. -/
theorem exists_value? {b : UInt8} (h : isDigit (charOf b) = true) :
    ∃ v, value? b = some v ∧ v < 16 ∧ digit v = (charOf b).toLower := by
  have hd := digit_value? b
  rw [if_pos h] at hd
  obtain ⟨v, hv, hdigit⟩ := Option.map_eq_some_iff.1 hd
  exact ⟨v, hv, value?_lt hv, hdigit⟩

/-- What is no digit has no value. -/
theorem value?_eq_none {b : UInt8} (h : isDigit (charOf b) = false) : value? b = none := by
  have hd := digit_value? b
  rw [h] at hd
  exact Option.map_eq_none_iff.1 hd

/-- Pairs of digits are read, and written again they are the same in lower case. -/
theorem exists_pairs (position : Nat) : ∀ text : List UInt8, text.length % 2 = 0 →
    (∀ b ∈ text, isDigit (charOf b) = true) →
    ∃ bytes, pairs position text = .ok bytes ∧ 2 * bytes.length = text.length ∧
      encode bytes = text.map fun b => (charOf b).toLower
  | [], _, _ => ⟨[], rfl, rfl, rfl⟩
  | [_], hlength, _ => nomatch hlength
  | high :: low :: rest, hlength, hdigits => by
    obtain ⟨h, hh, hlt, hhigh⟩ := exists_value? (hdigits high List.mem_cons_self)
    obtain ⟨l, hl, hlt', hlow⟩ :=
      exists_value? (hdigits low (List.mem_cons_of_mem _ List.mem_cons_self))
    obtain ⟨bytes, hpairs, hcount, hencode⟩ := exists_pairs (position + 2) rest
      (by rw [List.length_cons, List.length_cons] at hlength; omega)
      fun b hb => hdigits b (List.mem_cons_of_mem _ (List.mem_cons_of_mem _ hb))
    -- two digits make a number that a byte can hold
    have hvalue : (UInt8.ofNat (16 * h + l)).toNat = 16 * h + l :=
      UInt8.toNat_ofNat_of_lt' (by change _ < 256; omega)
    refine ⟨UInt8.ofNat (16 * h + l) :: bytes, ?_, ?_, ?_⟩
    · rw [pairs, hh, hl]
      change (UInt8.ofNat (16 * h + l) :: ·) <$> pairs (position + 2) rest = _
      rw [hpairs]
      rfl
    · rw [List.length_cons, List.length_cons, List.length_cons]
      omega
    · have hcons : encode (UInt8.ofNat (16 * h + l) :: bytes) =
          digit ((16 * h + l) / 16) :: digit ((16 * h + l) % 16) :: encode bytes := by
        change digit ((UInt8.ofNat (16 * h + l)).toNat / 16) ::
          digit ((UInt8.ofNat (16 * h + l)).toNat % 16) :: encode bytes = _
        rw [hvalue]
      have hhalf : (16 * h + l) / 16 = h := by omega
      have hrest : (16 * h + l) % 16 = l := by omega
      rw [hcons, hhalf, hrest, hhigh, hlow, hencode]
      rfl

/-- The first byte that is no digit is the mistake. -/
theorem pairs_eq_notDigit {b : UInt8} (hb : isDigit (charOf b) = false) (rest : List UInt8) :
    ∀ (digits : List UInt8) (position : Nat), (digits ++ b :: rest).length % 2 = 0 →
      (∀ d ∈ digits, isDigit (charOf d) = true) →
      pairs position (digits ++ b :: rest) = .error (.notDigit b (position + digits.length))
  | [], position, hlength, _ => by
    rcases rest with _ | ⟨low, rest⟩
    · cases hlength
    · rw [List.nil_append, pairs, value?_eq_none hb]
      rfl
  | [high], position, _, hdigits => by
    obtain ⟨h, hh, -⟩ := exists_value? (hdigits high List.mem_cons_self)
    rw [List.singleton_append, pairs, hh, value?_eq_none hb]
    rfl
  | high :: low :: digits, position, hlength, hdigits => by
    obtain ⟨h, hh, -⟩ := exists_value? (hdigits high List.mem_cons_self)
    obtain ⟨l, hl, -⟩ :=
      exists_value? (hdigits low (List.mem_cons_of_mem _ List.mem_cons_self))
    have ih := pairs_eq_notDigit hb rest digits (position + 2)
      (by
        rw [List.cons_append, List.cons_append, List.length_cons, List.length_cons] at hlength
        omega)
      fun d hd => hdigits d (List.mem_cons_of_mem _ (List.mem_cons_of_mem _ hd))
    rw [List.cons_append, List.cons_append, pairs, hh, hl]
    change (UInt8.ofNat (16 * h + l) :: ·) <$> pairs (position + 2) (digits ++ b :: rest) = _
    rw [ih, List.length_cons, List.length_cons, Nat.add_assoc, Nat.add_comm 2]
    rfl

/-! ## Characters and their bytes -/

/-- A character of seven bits is one byte of text. -/
theorem utf8EncodeChar_of_le {c : Char} (h : c.toNat ≤ 127) :
    String.utf8EncodeChar c = [UInt8.ofNat c.toNat] := if_pos h

/-- Such a character can be read off its byte. -/
theorem charOf_ofNat {c : Char} (h : c.toNat ≤ 127) : charOf (UInt8.ofNat c.toNat) = c := by
  rw [charOf, UInt8.toNat_ofNat_of_lt' (by change _ < 256; omega), Char.ofNat_toNat]

/-- Bytes beyond seven bits are no digits. -/
theorem not_isDigit_of_le : ∀ n < 256, 128 ≤ n → isDigit (Char.ofNat n) = false := by
  decide +kernel

/-- Digits have seven bits. -/
theorem le_of_isDigit {c : Char} (h : isDigit c = true) : c.toNat ≤ 127 := by
  simp only [isDigit, Char.isDigit, Bool.or_eq_true, Bool.and_eq_true, decide_eq_true_eq,
    Char.le_def, UInt32.le_iff_toNat_le, ge_iff_le] at h
  change c.val.toNat ≤ 127
  have hnine : '9'.val.toNat = 57 := rfl
  have hf : 'f'.val.toNat = 102 := rfl
  have hF : 'F'.val.toNat = 70 := rfl
  omega

/-- The first byte of a character beyond the seventh bit is no digit. -/
theorem exists_not_isDigit {c : Char} (h : ¬ c.toNat ≤ 127) :
    ∃ b ∈ String.utf8EncodeChar c, isDigit (charOf b) = false := by
  have hlead (n : Nat) (hn : 128 ≤ n) (hlt : n < 256) :
      isDigit (charOf (UInt8.ofNat n)) = false := by
    rw [charOf, UInt8.toNat_ofNat_of_lt' hlt]
    exact not_isDigit_of_le n hlt hn
  have hcode : ¬ c.val.toNat ≤ 127 := h
  simp only [String.utf8EncodeChar, if_neg hcode]
  split
  · exact ⟨_, List.mem_cons_self, hlead _ (by omega) (by omega)⟩
  · split
    · exact ⟨_, List.mem_cons_self, hlead _ (by omega) (by omega)⟩
    · exact ⟨_, List.mem_cons_self, hlead _ (by omega) (by omega)⟩

/-- The bytes of a character are digits exactly if it is one. -/
theorem forall_isDigit_iff {c : Char} :
    (∀ b ∈ String.utf8EncodeChar c, isDigit (charOf b) = true) ↔ isDigit c = true := by
  by_cases h : c.toNat ≤ 127
  · rw [utf8EncodeChar_of_le h]
    simp only [List.mem_singleton, forall_eq, charOf_ofNat h]
  · obtain ⟨b, hb, hno⟩ := exists_not_isDigit h
    exact ⟨fun hall => absurd (hall b hb) (by simp [hno]), fun hc => absurd (le_of_isDigit hc) h⟩

/-- Characters of seven bits can be read off their bytes. -/
theorem map_charOf {cs : List Char} (h : ∀ c ∈ cs, isDigit c = true) :
    (cs.flatMap String.utf8EncodeChar).map charOf = cs := by
  induction cs with
  | nil => rfl
  | cons c cs ih =>
    have hc := le_of_isDigit (h c List.mem_cons_self)
    rw [List.flatMap_cons, utf8EncodeChar_of_le hc, List.singleton_append, List.map_cons,
      charOf_ofNat hc, ih fun c' hc' => h c' (List.mem_cons_of_mem _ hc')]

end Hexadecimal

/-- The text of a hash is read back as the hash. -/
theorem ClosureHash.parse_text (h : ClosureHash) : ClosureHash.parse h.text = .ok h := by
  obtain ⟨bytes, hlength⟩ := h
  have hdecode := Hexadecimal.decode_encode bytes
  rw [hlength] at hdecode
  simp only [parse, text, toUTF8_toList_ofList, hdecode, dif_pos hlength]

end QueryViews
