/-!
# Quoted text

A text constant is written between single quotes, with every quote inside it written twice.
-/

namespace QueryViews.Quoted

/-- The single quote. -/
def mark : Char := '\''

/-- The text with every quote written twice. -/
def double : List Char → List Char
  | [] => []
  | c :: cs => if c = mark then mark :: mark :: double cs else c :: double cs

/-- The literal that stands for a text. -/
def quote (cs : List Char) : List Char :=
  mark :: (double cs ++ [mark])

end QueryViews.Quoted
