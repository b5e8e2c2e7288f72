/-!
# Hexadecimal bytes

Two digits a byte, the high half first, written in lower case and read in either case. `decode`
reads an exact number of bytes, and says which of three checks failed first: an odd number of
digits, a wrong number of them, or a digit that is none, by its place.
-/

namespace QueryViews.Hexadecimal

/-- The digit of a value below sixteen. -/
def digit (n : Nat) : Char :=
  if n < 10 then Char.ofNat (48 + n) else Char.ofNat (87 + n)

/-- The value of a digit of either case, given as a byte of text. -/
def value? (b : UInt8) : Option Nat :=
  let n := b.toNat
  if 48 ≤ n ∧ n ≤ 57 then some (n - 48)
  else if 97 ≤ n ∧ n ≤ 102 then some (n - 87)
  else if 65 ≤ n ∧ n ≤ 70 then some (n - 55)
  else none

/-- The digits of some bytes. -/
def encode (bytes : List UInt8) : List Char :=
  bytes.flatMap fun b => [digit (b.toNat / 16), digit (b.toNat % 16)]

/-- Why a text is not the given number of bytes. -/
inductive Mistake
  | oddLength
  | wrongLength
  /-- the byte at the position is not a digit -/
  | notDigit (byte : UInt8) (position : Nat)
  deriving DecidableEq

/-- Reads pairs of digits from the position on. -/
def pairs : Nat → List UInt8 → Except Mistake (List UInt8)
  | position, high :: low :: rest =>
    match value? high, value? low with
    | none, _ => .error (.notDigit high position)
    | some _, none => .error (.notDigit low (position + 1))
    | some h, some l => (UInt8.ofNat (16 * h + l) :: ·) <$> pairs (position + 2) rest
  | _, _ => .ok []

/-- Reads exactly `count` bytes from the bytes of a text. -/
def decode (count : Nat) (text : List UInt8) : Except Mistake (List UInt8) :=
  if text.length % 2 ≠ 0 then .error .oddLength
  else if text.length ≠ 2 * count then .error .wrongLength
  else pairs 0 text

/-- The hexadecimal digits of a number, without leading zeros. -/
def ofNat (n : Nat) : String := String.ofList (Nat.toDigits 16 n)

/-- A byte shown as the character of that code, between quotes. What has no visible form is
written as an escape: some by a letter of their own, the rest by their code. -/
def showByte (b : UInt8) : String :=
  let n := b.toNat
  let body :=
    if n = 0 then "\\0"
    else if n = 9 then "\\t"
    else if n = 10 then "\\n"
    else if n = 13 then "\\r"
    else if n = 39 then "\\'"
    else if n = 92 then "\\\\"
    else if n < 32 || (127 ≤ n && n ≤ 160) || n = 173 then "\\u\x7b" ++ ofNat n ++ "\x7d"
    else (Char.ofNat n).toString
  "'" ++ body ++ "'"

/-- The wording of a mistake. -/
def Mistake.message : Mistake → String
  | .oddLength => "Odd number of digits"
  | .wrongLength => "Invalid string length"
  | .notDigit byte position => s!"Invalid character {showByte byte} at position {position}"

end QueryViews.Hexadecimal
