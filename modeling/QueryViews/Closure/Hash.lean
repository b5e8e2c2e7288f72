import QueryViews.Closure.Encoding
import QueryViews.Digest.Sha256
import QueryViews.Error
import QueryViews.Text.Hexadecimal

/-!
# Closure hashes

The SHA-256 digest of the content of a mapping. It is written as 64 lower-case hexadecimal digits
and read back from digits of either case.
-/

namespace QueryViews

/-- A hash of all that a mapping refers to: 32 bytes. -/
structure ClosureHash where
  bytes : List UInt8
  length_bytes : bytes.length = 32
  deriving DecidableEq

namespace ClosureHash

/-- The hash of the bytes of content. -/
def ofContent (c : Content) : ClosureHash := ⟨Sha256.digest c.encode, Sha256.length_digest _⟩

/-- The hash of the mapping of a container; none if the container is not mapped. -/
def compute (s : Schema) (id : ContainerId) : Except Fault (Option ClosureHash) := do
  return (← s.content id).map ofContent

/-- The 64 digits of a hash. -/
def text (h : ClosureHash) : String := String.ofList (Hexadecimal.encode h.bytes)

/-- Why a text is not the text of a hash. -/
def parseError (s : String) (m : Hexadecimal.Mistake) : Error :=
  .plain s!"closure hash must be 64 hex characters; got `{s}`: {m.message}"

/-- Reads 64 hexadecimal digits of either case. -/
def parse (s : String) : Except Error ClosureHash :=
  match Hexadecimal.decode 32 s.toUTF8.toList with
  | .error m => .error (parseError s m)
  | .ok bytes =>
    if h : bytes.length = 32 then .ok ⟨bytes, h⟩ else .error (parseError s .wrongLength)

end ClosureHash

end QueryViews
