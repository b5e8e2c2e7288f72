import QueryViews.Text.Json.Basic

/-!
# Reading JSON texts

A reader takes what it reads from the front of a list of characters and gives back the rest. The
grammar is that of the JSON standard and nothing more: no comma at the end, no leading zeros, no
control characters in strings, four hexadecimal digits after `\u`.

Nested values are read within a bound on the depth of the walk, which `parse` takes from the length
of the text: a walk that goes two steps deeper has read at least one character.
-/

namespace QueryViews.Json

/-- Drops the blanks that may stand between the parts of a text. -/
def skipBlanks (cs : List Char) : List Char :=
  cs.dropWhile fun c => c = ' ' || c = '\n' || c = '\t' || c = '\r'

/-! ## Strings -/

/-- The value of a hexadecimal digit of either case. -/
def hexValue? (c : Char) : Option Nat :=
  let n := c.toNat
  if 48 ≤ n ∧ n ≤ 57 then some (n - 48)
  else if 97 ≤ n ∧ n ≤ 102 then some (n - 87)
  else if 65 ≤ n ∧ n ≤ 70 then some (n - 55)
  else none

/-- The code that four hexadecimal digits name. -/
def codeUnit? (a b c d : Char) : Option Nat := do
  return 4096 * (← hexValue? a) + 256 * (← hexValue? b) + 16 * (← hexValue? c) + (← hexValue? d)

/-- What a one-letter escape stands for. -/
def escaped? (c : Char) : Option Nat :=
  if c = '"' || c = '\\' || c = '/' then some c.toNat
  else if c = 'b' then some 8
  else if c = 'f' then some 12
  else if c = 'n' then some 10
  else if c = 'r' then some 13
  else if c = 't' then some 9
  else none

/-- The codes in a string literal up to its closing quote, and what follows the quote. -/
def codes : List Char → Option (List Nat × List Char)
  | [] => none
  | '\\' :: 'u' :: a :: b :: c :: d :: rest => do
    let n ← codeUnit? a b c d
    let (ns, rest) ← codes rest
    return (n :: ns, rest)
  | '\\' :: c :: rest => do
    let n ← escaped? c
    let (ns, rest) ← codes rest
    return (n :: ns, rest)
  | c :: rest =>
    if c = '"' then some ([], rest)
    else if c = '\\' || c.toNat < 32 then none
    else do
      let (ns, rest) ← codes rest
      return (c.toNat :: ns, rest)

/-- The characters that codes name, with each surrogate pair as one; nothing if a half stands
alone. -/
def characters : List Nat → Option (List Char)
  | [] => some []
  | n :: ns =>
    if 0xdc00 ≤ n ∧ n ≤ 0xdfff then none
    else if 0xd800 ≤ n ∧ n ≤ 0xdbff then
      match ns with
      | low :: ns =>
        if 0xdc00 ≤ low ∧ low ≤ 0xdfff then
          (Char.ofNat (0x10000 + 1024 * (n - 0xd800) + (low - 0xdc00)) :: ·) <$> characters ns
        else none
      | [] => none
    else (Char.ofNat n :: ·) <$> characters ns

/-- The rest of a string literal after its opening quote, as the text it denotes. -/
def literal (cs : List Char) : Option (Option String × List Char) := do
  let (ns, rest) ← codes cs
  return ((characters ns).map String.ofList, rest)

/-! ## Numbers -/

/-- A run of digits, which must not be empty. -/
def digits (cs : List Char) : Option (List Char × List Char) :=
  match cs.span Char.isDigit with
  | ([], _) => none
  | (ds, rest) => some (ds, rest)

/-- The part before the point: one zero, or digits that do not start with one. -/
def whole : List Char → Option (List Char × List Char)
  | '0' :: rest => if rest.head?.any Char.isDigit then none else some (['0'], rest)
  | cs => digits cs

/-- A point and digits, if there is a point. -/
def fraction : List Char → Option (List Char × List Char)
  | '.' :: rest => do
    let (ds, rest) ← digits rest
    return ('.' :: ds, rest)
  | cs => some ([], cs)

/-- The exponent, if there is one. -/
def exponent : List Char → Option (List Char × List Char)
  | [] => some ([], [])
  | e :: rest =>
    if e = 'e' || e = 'E' then do
      let (sign, rest) := match rest with
        | c :: more => if c = '+' || c = '-' then ([c], more) else ([], rest)
        | [] => ([], [])
      let (ds, rest) ← digits rest
      return (e :: sign ++ ds, rest)
    else some ([], e :: rest)

/-- A number, as written. -/
def numeral (cs : List Char) : Option (String × List Char) := do
  let (sign, rest) := match cs with
    | '-' :: rest => (['-'], rest)
    | _ => ([], cs)
  let (w, rest) ← whole rest
  let (f, rest) ← fraction rest
  let (e, rest) ← exponent rest
  return (String.ofList (sign ++ w ++ f ++ e), rest)

/-! ## Values -/

/-- Takes a word from the front. -/
def keyword (word : String) (j : Json) (cs : List Char) : Option (Json × List Char) :=
  if word.toList.isPrefixOf cs then some (j, cs.drop word.length) else none

mutual

/-- A value, with blanks before it. -/
def value : Nat → List Char → Option (Json × List Char)
  | 0, _ => none
  | depth + 1, cs =>
    match skipBlanks cs with
    | [] => none
    | c :: rest =>
      if c = '"' then do
        let (text, rest) ← literal rest
        return (.string text, rest)
      else if c = '[' then
        match skipBlanks rest with
        | ']' :: rest => some (.array [], rest)
        | rest => do
          let (js, rest) ← items depth rest
          return (.array js, rest)
      else if c = '\x7b' then
        match skipBlanks rest with
        | '\x7d' :: rest => some (.object [], rest)
        | rest => do
          let (ms, rest) ← members depth rest
          return (.object ms, rest)
      else if c = 'n' then keyword "null" .null (c :: rest)
      else if c = 't' then keyword "true" (.bool true) (c :: rest)
      else if c = 'f' then keyword "false" (.bool false) (c :: rest)
      else do
        let (n, rest) ← numeral (c :: rest)
        return (.number n, rest)

/-- The items of an array that has some, up to its end. -/
def items : Nat → List Char → Option (List Json × List Char)
  | 0, _ => none
  | depth + 1, cs => do
    let (j, rest) ← value depth cs
    match skipBlanks rest with
    | ',' :: rest => do
      let (js, rest) ← items depth rest
      return (j :: js, rest)
    | ']' :: rest => return ([j], rest)
    | _ => none

/-- The members of an object that has some, up to its end. -/
def members : Nat → List Char → Option (List (Option String × Json) × List Char)
  | 0, _ => none
  | depth + 1, cs =>
    match skipBlanks cs with
    | '"' :: rest => do
      let (key, rest) ← literal rest
      match skipBlanks rest with
      | ':' :: rest => do
        let (j, rest) ← value depth rest
        match skipBlanks rest with
        | ',' :: rest => do
          let (ms, rest) ← members depth rest
          return ((key, j) :: ms, rest)
        | '\x7d' :: rest => return ([(key, j)], rest)
        | _ => none
      | _ => none
    | _ => none

end

/-- Reads a text that is one value with blanks around it. -/
def parse (cs : List Char) : Option Json :=
  match value (2 * cs.length + 1) cs with
  | some (j, rest) => if (skipBlanks rest).isEmpty then some j else none
  | none => none

end QueryViews.Json
