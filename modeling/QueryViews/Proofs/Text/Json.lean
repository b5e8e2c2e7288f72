import QueryViews.Text.Json.Reader
import Mathlib.Data.List.Basic

/-!
# Strings read back

A text written as a string literal is read back as the text (`Json.literal_quote`), whatever
follows the literal: each character is escaped into something that is read as its code, and no
character is half of a surrogate pair.
-/

namespace QueryViews.Json

/-! ## Characters -/

/-- Two hexadecimal digits after two zeros are the code that they were written for. -/
theorem codeUnit?_digitChar : ∀ n < 32,
    codeUnit? '0' '0' (Nat.digitChar (n / 16)) (Nat.digitChar (n % 16)) = some n := by
  decide

/-- A character that needs no escape is read as it stands. -/
theorem codes_plain {c : Char} (hquote : c ≠ '"') (hbackslash : c ≠ '\\')
    (hcontrol : ¬ c.toNat < 32) (rest : List Char) :
    codes (c :: rest) = (codes rest).map fun (ns, rest) => (c.toNat :: ns, rest) := by
  rw [codes.eq_def]
  split
  · contradiction
  · simp_all
  · simp_all
  · rename_i h
    cases h
    simp only [hquote, hbackslash, hcontrol]
    cases codes rest <;> rfl

/-- An escape of one letter is read as what it stands for. -/
theorem codes_letter {c : Char} {n : Nat} (hu : c ≠ 'u') (hc : escaped? c = some n)
    (rest : List Char) :
    codes ('\\' :: c :: rest) = (codes rest).map fun (ns, rest) => (n :: ns, rest) := by
  rw [codes.eq_def]
  split
  · contradiction
  · rename_i h
    cases h
    exact absurd rfl hu
  · rename_i h
    cases h
    rw [hc]
    cases codes rest <;> rfl
  · rename_i h heq
    cases heq
    exact absurd rfl (h c rest rfl)

/-- An escape by a code is read as the character of the code. -/
theorem codes_code {a b c d : Char} {n : Nat} (hn : codeUnit? a b c d = some n)
    (rest : List Char) :
    codes ('\\' :: 'u' :: a :: b :: c :: d :: rest) =
      (codes rest).map fun (ns, rest) => (n :: ns, rest) := by
  rw [codes, hn]
  cases codes rest <;> rfl

/-- An escaped character is read as its code. -/
theorem codes_escape (c : Char) (rest : List Char) :
    codes (escape c ++ rest) = (codes rest).map fun (ns, rest) => (c.toNat :: ns, rest) := by
  have eq_ofNat {n : Nat} (h : c.toNat = n) : c = Char.ofNat n := by
    rw [← h, Char.ofNat_toNat]
  -- a quote, a backslash and five control characters have a letter of their own, the other control
  -- characters have a code, and all else stands for itself
  rw [escape]
  split_ifs with hquote hslash hback htab hline hform hreturn hcontrol
  · rw [eq_ofNat hquote]
    exact codes_letter (by decide) (by decide) rest
  · rw [eq_ofNat hslash]
    exact codes_letter (by decide) (by decide) rest
  · rw [hback]
    exact codes_letter (by decide) (by decide) rest
  · rw [htab]
    exact codes_letter (by decide) (by decide) rest
  · rw [hline]
    exact codes_letter (by decide) (by decide) rest
  · rw [hform]
    exact codes_letter (by decide) (by decide) rest
  · rw [hreturn]
    exact codes_letter (by decide) (by decide) rest
  · exact codes_code (codeUnit?_digitChar c.toNat hcontrol) rest
  · exact codes_plain (fun h => hquote (by rw [h]; rfl)) (fun h => hslash (by rw [h]; rfl)) hcontrol
      rest

/-- No character is half of a surrogate pair. -/
theorem characters_toNat (cs : List Char) : characters (cs.map Char.toNat) = some cs := by
  induction cs with
  | nil => rfl
  | cons c cs ih =>
    have hvalid : c.toNat < 0xd800 ∨ 0xdfff < c.toNat ∧ c.toNat < 0x110000 := c.valid
    rw [List.map_cons, characters.eq_def]
    simp only
    -- neither a leading nor a trailing half
    rw [if_neg (by omega), if_neg (by omega), ih, Char.ofNat_toNat]
    rfl

/-! ## Literals -/

/-- Escaped characters are read back, up to the quote behind them. -/
theorem codes_flatMap_escape (cs rest : List Char) :
    codes (cs.flatMap escape ++ '"' :: rest) = some (cs.map Char.toNat, rest) := by
  induction cs with
  | nil => rfl
  | cons c cs ih =>
    rw [List.flatMap_cons, List.append_assoc, codes_escape, ih]
    rfl

/-- A string literal is read as the text that it was written for. -/
theorem literal_quote (s : String) (rest : List Char) :
    literal (s.toList.flatMap escape ++ '"' :: rest) = some (some s, rest) := by
  rw [literal, codes_flatMap_escape]
  change some ((characters (s.toList.map Char.toNat)).map String.ofList, rest) = _
  rw [characters_toNat, Option.map_some, String.ofList_toList]

end QueryViews.Json
