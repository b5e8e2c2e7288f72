import QueryViews.Proofs.Text.Hexadecimal

/-!
# The text of a closure hash

A hash is written as 64 digits, and every text of 64 digits of either case is the text of a hash, up
to case. All other texts are refused, for the first of three reasons that applies to their bytes
(`ClosureHash.text_faithful`).
-/

namespace QueryViews

open Hexadecimal

namespace ClosureHash

variable {s t : String} {h : ClosureHash}

/-- A text of 64 digits, of either case. -/
def Spelled (s : String) : Prop := s.length = 64 ∧ ∀ c ∈ s.toList, isDigit c = true

/-- The first byte of a text that is no digit, and the digits before it. -/
def Stumbles (s : String) (digits : List UInt8) (b : UInt8) : Prop :=
  (∃ rest, s.toUTF8.toList = digits ++ b :: rest) ∧
    (∀ d ∈ digits, isDigit (charOf d) = true) ∧ isDigit (charOf b) = false

/-! ## Texts and their bytes -/

/-- The bytes of a text are those of its characters, one after another. -/
theorem toUTF8_toList_eq (s : String) :
    s.toUTF8.toList = s.toList.flatMap String.utf8EncodeChar := by
  have h := toUTF8_toList_ofList s.toList
  rwa [String.ofList_toList] at h

/-- The bytes of a text are digits exactly if its characters are: a character of several bytes has
none that is a digit. -/
theorem forall_isDigit_toUTF8_iff : (∀ b ∈ s.toUTF8.toList, isDigit (charOf b) = true) ↔
    ∀ c ∈ s.toList, isDigit c = true := by
  rw [toUTF8_toList_eq]
  constructor
  · intro hbytes c hc
    exact forall_isDigit_iff.1 fun b hb => hbytes b (List.mem_flatMap.2 ⟨c, hc, hb⟩)
  · intro hchars b hb
    obtain ⟨c, hc, hb⟩ := List.mem_flatMap.1 hb
    exact forall_isDigit_iff.2 (hchars c hc) b hb

/-- Digits are their own bytes. -/
theorem map_charOf_toUTF8 (hdigits : ∀ c ∈ s.toList, isDigit c = true) :
    s.toUTF8.toList.map charOf = s.toList := by
  rw [toUTF8_toList_eq, map_charOf hdigits]

/-- A text of digits has as many bytes as characters. -/
theorem utf8ByteSize_of_digits (hdigits : ∀ c ∈ s.toList, isDigit c = true) :
    s.utf8ByteSize = s.length := by
  rw [← length_toUTF8_toList, ← List.length_map charOf, map_charOf_toUTF8 hdigits,
    String.length_toList]

theorem toList_toLower (s : String) : s.toLower.toList = s.toList.map Char.toLower :=
  String.toList_map

/-! ## Reading -/

/-- An odd number of bytes is refused, whatever they are. -/
theorem parse_of_odd (hodd : s.utf8ByteSize % 2 = 1) :
    parse s = .error (parseError s .oddLength) := by
  rw [parse, decode, length_toUTF8_toList, if_pos (by omega)]

/-- So is a wrong even number. -/
theorem parse_of_ne (heven : s.utf8ByteSize % 2 = 0) (hne : s.utf8ByteSize ≠ 64) :
    parse s = .error (parseError s .wrongLength) := by
  rw [parse, decode, length_toUTF8_toList, if_neg (by omega), if_pos hne]

/-- With the right number of bytes, they are read in pairs. -/
theorem decode_eq_pairs (hsize : s.utf8ByteSize = 64) :
    decode 32 s.toUTF8.toList = pairs 0 s.toUTF8.toList := by
  rw [decode, length_toUTF8_toList, hsize]
  rfl

/-- A text of the right size is refused at the first byte that is not a digit. -/
theorem parse_of_stumbles {digits : List UInt8} {b : UInt8} (hsize : s.utf8ByteSize = 64)
    (hs : Stumbles s digits b) :
    parse s = .error (parseError s (.notDigit b digits.length)) := by
  obtain ⟨⟨rest, hbytes⟩, hdigits, hb⟩ := hs
  have heven : (digits ++ b :: rest).length % 2 = 0 := by
    rw [← hbytes, length_toUTF8_toList, hsize]
  rw [parse, decode_eq_pairs hsize, hbytes, pairs_eq_notDigit hb rest digits 0 heven hdigits,
    Nat.zero_add]

/-- What is spelled is read, and written it is the same in lower case. -/
theorem Spelled.exists_parse (hs : Spelled s) : ∃ h, parse s = .ok h ∧ h.text = s.toLower := by
  obtain ⟨hlength, hdigits⟩ := hs
  have hsize : s.utf8ByteSize = 64 := (utf8ByteSize_of_digits hdigits).trans hlength
  obtain ⟨bytes, hpairs, hcount, hencode⟩ := exists_pairs 0 s.toUTF8.toList
    (by rw [length_toUTF8_toList, hsize]) (forall_isDigit_toUTF8_iff.2 hdigits)
  have h32 : bytes.length = 32 := by
    rw [length_toUTF8_toList, hsize] at hcount
    omega
  refine ⟨⟨bytes, h32⟩, ?_, ?_⟩
  · simp only [parse, decode_eq_pairs hsize, hpairs, dif_pos h32]
  · have hlower : s.toUTF8.toList.map (fun b => (charOf b).toLower) =
        s.toList.map Char.toLower := by
      rw [← map_charOf_toUTF8 hdigits, List.map_map]
      rfl
    rw [← String.toList_inj, text, String.toList_ofList, hencode, hlower, toList_toLower]

/-- A text is spelled, or something is wrong with it: the first of three things. -/
theorem spelled_or (s : String) : Spelled s ∨ s.utf8ByteSize % 2 = 1 ∨
    (s.utf8ByteSize % 2 = 0 ∧ s.utf8ByteSize ≠ 64) ∨
      (s.utf8ByteSize = 64 ∧ ∃ digits b, Stumbles s digits b) := by
  rcases Nat.mod_two_eq_zero_or_one s.utf8ByteSize with heven | hodd
  · by_cases hsize : s.utf8ByteSize = 64
    · cases hfind : s.toUTF8.toList.find? fun b => !isDigit (charOf b) with
      | none =>
        have hdigits : ∀ c ∈ s.toList, isDigit c = true :=
          forall_isDigit_toUTF8_iff.1 fun b hb => by
            simpa using List.find?_eq_none.1 hfind b hb
        exact .inl ⟨(utf8ByteSize_of_digits hdigits).symm.trans hsize, hdigits⟩
      | some b =>
        obtain ⟨hb, digits, rest, hbytes, hdigits⟩ := List.find?_eq_some_iff_append.1 hfind
        exact .inr (.inr (.inr ⟨hsize, digits, b, ⟨rest, hbytes⟩,
          fun d hd => by simpa using hdigits d hd, by simpa using hb⟩))
    · exact .inr (.inr (.inl ⟨heven, hsize⟩))
  · exact .inr (.inl hodd)

/-- What is read was spelt as a hash. -/
theorem Spelled.of_parse (hparse : parse s = .ok h) : Spelled s := by
  rcases spelled_or s with hs | hodd | ⟨heven, hne⟩ | ⟨hsize, digits, b, hs⟩
  · exact hs
  · rw [parse_of_odd hodd] at hparse
    cases hparse
  · rw [parse_of_ne heven hne] at hparse
    cases hparse
  · rw [parse_of_stumbles hsize hs] at hparse
    cases hparse

/-- The text of the hash that was read is the text in lower case. -/
theorem text_of_parse (hparse : parse s = .ok h) : h.text = s.toLower := by
  obtain ⟨k, hk, htext⟩ := (Spelled.of_parse hparse).exists_parse
  rw [hparse] at hk
  cases hk
  exact htext

/-- Different hashes have different texts. -/
theorem text_injective {h k : ClosureHash} (heq : h.text = k.text) : h = k := by
  have hh := parse_text h
  rw [heq, parse_text k] at hh
  exact (Except.ok.inj hh).symm

/-- Why a text is refused. -/
def refusal (s reason : String) : Error :=
  .plain s!"closure hash must be 64 hex characters; got `{s}`: {reason}"

/-- **The text of a hash is faithful.** Every hash is read back from its text. A text can be read
exactly if it has 64 digits of either case; the hash is then written as the same digits in lower
case, so that two texts are of one hash exactly if they differ in case only. Any other text is
refused, for the first of three reasons that applies: an odd number of bytes, another number of them
than 64, or a byte that is no digit, by the place of the first such byte. -/
theorem text_faithful :
    (∀ h : ClosureHash, parse h.text = .ok h) ∧
    (∀ s : String, (∃ h, parse s = .ok h) ↔ Spelled s) ∧
    (∀ (s : String) (h : ClosureHash), parse s = .ok h → h.text = s.toLower) ∧
    (∀ (s t : String) (h k : ClosureHash), parse s = .ok h → parse t = .ok k →
      (h = k ↔ s.toLower = t.toLower)) ∧
    ∀ (s : String) (e : Error), parse s = .error e ↔
      (s.utf8ByteSize % 2 = 1 ∧ e = refusal s "Odd number of digits") ∨
      (s.utf8ByteSize % 2 = 0 ∧ s.utf8ByteSize ≠ 64 ∧ e = refusal s "Invalid string length") ∨
      (s.utf8ByteSize = 64 ∧ ∃ digits b, Stumbles s digits b ∧
        e = refusal s s!"Invalid character {showByte b} at position {digits.length}") := by
  refine ⟨parse_text, fun s => ⟨fun ⟨h, hparse⟩ => Spelled.of_parse hparse, fun hs => ?_⟩,
    fun s h => text_of_parse, fun s t h k hs ht => ?_, fun s e => ⟨fun hparse => ?_, ?_⟩⟩
  · obtain ⟨h, hparse, -⟩ := Spelled.exists_parse hs
    exact ⟨h, hparse⟩
  · rw [← text_of_parse hs, ← text_of_parse ht]
    exact ⟨congrArg text, text_injective⟩
  -- of the four things that a text can be, the first one is not refused
  · rcases spelled_or s with hs | hodd | ⟨heven, hne⟩ | ⟨hsize, digits, b, hs⟩
    · obtain ⟨h, hok, -⟩ := hs.exists_parse
      rw [hok] at hparse
      cases hparse
    · rw [parse_of_odd hodd] at hparse
      exact .inl ⟨hodd, (Except.error.inj hparse).symm⟩
    · rw [parse_of_ne heven hne] at hparse
      exact .inr (.inl ⟨heven, hne, (Except.error.inj hparse).symm⟩)
    · rw [parse_of_stumbles hsize hs] at hparse
      exact .inr (.inr ⟨hsize, digits, b, hs, (Except.error.inj hparse).symm⟩)
  · rintro (⟨hodd, rfl⟩ | ⟨heven, hne, rfl⟩ | ⟨hsize, digits, b, hs, rfl⟩)
    · exact parse_of_odd hodd
    · exact parse_of_ne heven hne
    · exact parse_of_stumbles hsize hs

/-- A text and the same in capitals are of one hash, and a letter of two bytes is refused where its
first byte stands, though the text has 64 bytes. -/
theorem capitals_read :
    (∃ h : ClosureHash, parse (String.ofList (List.replicate 64 'A')) = .ok h ∧
      parse (String.ofList (List.replicate 64 'a')) = .ok h ∧
      h.text = String.ofList (List.replicate 64 'a')) ∧
    parse (String.ofList (List.replicate 62 'A' ++ ['é'])) =
      .error (refusal (String.ofList (List.replicate 62 'A' ++ ['é']))
        s!"Invalid character {showByte 0xC3} at position 62") := by
  obtain ⟨-, hread, htext, hsame, hrefused⟩ := text_faithful
  have hspelled (c : Char) (hc : isDigit c = true) :
      Spelled (String.ofList (List.replicate 64 c)) := by
    refine ⟨by simp, fun d hd => ?_⟩
    rw [String.toList_ofList] at hd
    rw [(List.mem_replicate.1 hd).2]
    exact hc
  obtain ⟨h, hupper⟩ := (hread _).2 (hspelled 'A' rfl)
  obtain ⟨k, hlower⟩ := (hread _).2 (hspelled 'a' rfl)
  -- a text is put into lower case character by character
  have hcase (c : Char) : (String.ofList (List.replicate 64 c)).toLower =
      String.ofList (List.replicate 64 c.toLower) := by
    rw [← String.toList_inj, toList_toLower, String.toList_ofList, List.map_replicate,
      String.toList_ofList]
  obtain rfl : h = k := (hsame _ _ _ _ hupper hlower).2 (by rw [hcase, hcase]; rfl)
  refine ⟨⟨h, hupper, hlower, (htext _ _ hlower).trans (hcase 'a')⟩,
    (hrefused _ _).2 (.inr (.inr ⟨?_, List.replicate 62 65, 0xC3, ?_, rfl⟩))⟩
  · rw [← length_toUTF8_toList, toUTF8_toList_ofList]
    rfl
  · refine ⟨⟨[0xA9], ?_⟩, fun d hd => ?_, rfl⟩
    · rw [toUTF8_toList_ofList]
      rfl
    · rw [(List.mem_replicate.1 hd).2]
      rfl

end ClosureHash

end QueryViews
