/-!
# JSON texts

The syntax tree of a JSON text, as far as a reader of documents needs it: members in the order of
the text, numbers as they are written, and strings as the text they denote. A string literal whose
escapes name one half of a surrogate pair without the other denotes no text; it is a JSON string
all the same.

`escape` and `quote` write a text as a string literal.
-/

namespace QueryViews

/-- A document as it was written: numbers are kept as their digits, and objects keep repeated
fields. -/
inductive Json
  | null
  | bool (value : Bool)
  /-- a number as written -/
  | number (digits : String)
  /-- a string literal and the text it denotes, if it denotes one -/
  | string (text : Option String)
  | array (items : List Json)
  | object (members : List (Option String × Json))

namespace Json

/-- A character inside a string literal. Control characters, the quote and the backslash are
escaped, by a letter where they have one and else by their code. -/
def escape (c : Char) : List Char :=
  let n := c.toNat
  if n = 34 then ['\\', c]
  else if n = 92 then ['\\', c]
  else if n = 8 then ['\\', 'b']
  else if n = 9 then ['\\', 't']
  else if n = 10 then ['\\', 'n']
  else if n = 12 then ['\\', 'f']
  else if n = 13 then ['\\', 'r']
  else if n < 32 then ['\\', 'u', '0', '0', Nat.digitChar (n / 16), Nat.digitChar (n % 16)]
  else [c]

/-- The string literal of a text. -/
def quote (s : String) : List Char := '"' :: (s.toList.flatMap escape ++ ['"'])

end Json

end QueryViews
