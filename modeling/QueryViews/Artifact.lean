import QueryViews.Error
import QueryViews.OrderedMap
import QueryViews.Text.Json.Reader

/-!
# Artifacts

An artifact carries the views that were made ahead of time for one pair of containers: the name of
the pair, the hash of the mapping they were made from, and their texts under the qualified names of
their extents. It is stored as a JSON document with three fields, and its content is not trusted.

A document may have more fields than these, with whatever values, but each of the three exactly
once; or it may be an array of the three values. Of views of one name the last text counts, at the
place of the first.
-/

namespace QueryViews

/-- Views made ahead of time for one pair of containers. -/
structure Artifact where
  pair : String
  hash : String
  views : OrderedMap String String
  deriving DecidableEq

namespace Artifact

/-! ## Reading -/

/-- Why a document is not an artifact. -/
inductive Malformed
  | notJson
  | notArtifact
  /-- the name of a member denotes no text -/
  | brokenName
  | missing (field : String)
  | repeated (field : String)
  | wrongType (field : String)
  deriving DecidableEq

/-- What is wrong, in words. -/
def Malformed.message : Malformed → String
  | .notJson => "the document is not a JSON text"
  | .notArtifact => "the document has not the shape of an artifact"
  | .brokenName => "the name of a field is not a text"
  | .missing field => s!"missing field `{field}`"
  | .repeated field => s!"duplicate field `{field}`"
  | .wrongType field => s!"field `{field}` has a value of the wrong type"

/-- The one value under a name. -/
def single (members : List (String × Json)) (name : String) : Except Malformed Json :=
  match members.filter (·.1 = name) with
  | [] => .error (.missing name)
  | [(_, j)] => .ok j
  | _ => .error (.repeated name)

/-- A value that has to be a text. -/
def readText (name : String) : Json → Except Malformed String
  | .string (some text) => .ok text
  | _ => .error (.wrongType name)

/-- A member whose value has to be a text. -/
def readView : Option String × Json → Except Malformed (String × String)
  | (some name, .string (some text)) => .ok (name, text)
  | _ => .error (.wrongType "views")

/-- The views of an artifact. Of two with one name the last one counts. -/
def readViews : Json → Except Malformed (OrderedMap String String)
  | .object members => return OrderedMap.ofList (← members.mapM readView)
  | _ => .error (.wrongType "views")

/-- An artifact from its three fields; the first one with the wrong shape is reported. -/
def readFields (pair hash views : Json) : Except Malformed Artifact :=
  return ⟨← readText "container_pair" pair, ← readText "hash" hash, ← readViews views⟩

/-- The artifact that a value stands for. -/
def ofJson : Json → Except Malformed Artifact
  | .array [pair, hash, views] => readFields pair hash views
  | .object members => do
    let named ← members.mapM fun (name, j) =>
      match name with
      | some name => .ok (name, j)
      | none => .error .brokenName
    readFields (← single named "container_pair") (← single named "hash") (← single named "views")
  | _ => .error .notArtifact

/-- Reads a document. -/
def parse (document : String) : Except Error Artifact :=
  let outcome := match Json.parse document.toList with
    | some j => ofJson j
    | none => .error .notJson
  match outcome with
  | .ok a => .ok a
  | .error m => .error (.ofKind (.malformedArtifact m.message))

/-! ## Writing -/

/-- A member on a line of its own, `indent` spaces from the margin. -/
def member (indent : Nat) (name : String) (value : List Char) : List Char :=
  '\n' :: (List.replicate indent ' ' ++ Json.quote name ++ ':' :: ' ' :: value)

/-- An object with its members between braces, the closing one on a line of its own. An object
without members has nothing between its braces. -/
def braces (indent : Nat) (members : List (List Char)) : List Char :=
  match members with
  | [] => ['\x7b', '\x7d']
  | _ => '\x7b' :: (([','].intercalate members) ++
      '\n' :: (List.replicate indent ' ' ++ ['\x7d']))

/-- The document of an artifact: indented by two spaces, its fields in a fixed order. -/
def document (a : Artifact) : String :=
  let views := a.views.entries.map fun (name, text) => member 4 name (Json.quote text)
  String.ofList (braces 0
    [member 2 "container_pair" (Json.quote a.pair), member 2 "hash" (Json.quote a.hash),
      member 2 "views" (braces 2 views)])

end Artifact

end QueryViews
