/-!
# Blanks

The characters that Unicode calls white space, and the collapsing of every run of them to one
space. Collapsing drops blanks at both ends.
-/

namespace QueryViews.Blank

/-- The ranges of the property White_Space, ends included. -/
def ranges : List (Nat × Nat) :=
  [(0x9, 0xd), (0x20, 0x20), (0x85, 0x85), (0xa0, 0xa0), (0x1680, 0x1680), (0x2000, 0x200a),
    (0x2028, 0x2029), (0x202f, 0x202f), (0x205f, 0x205f), (0x3000, 0x3000)]

/-- Whether a character is white space. -/
def isBlank (c : Char) : Bool :=
  ranges.any fun (low, high) => low ≤ c.toNat && c.toNat ≤ high

/-- Puts a character in front: the word that is open there, and the closed words after it. -/
def step (c : Char) : List Char × List (List Char) → List Char × List (List Char)
  | (word, rest) =>
    if isBlank c then ([], if word = [] then rest else word :: rest) else (c :: word, rest)

/-- The longest stretches without a blank, in order. -/
def words (cs : List Char) : List (List Char) :=
  match cs.foldr step ([], []) with
  | ([], rest) => rest
  | (word, rest) => word :: rest

/-- The words of a text, one space apart. -/
def collapse (s : String) : String :=
  String.ofList ([' '].intercalate (words s.toList))

end QueryViews.Blank
