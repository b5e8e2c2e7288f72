import QueryViews.Diagnostic
import QueryViews.Fault

/-!
# Errors

An `Error` is a cause with the contexts it was met in: a chain of kinds, the latest context
first and the root cause last. Each kind has one message, and the message of an error is that of
its whole chain. What an error *is* (a mapping error, say) is decided by any kind of the chain,
so adding a context never hides it.

A `Failure` is how an operation ends without a value: with an error to report, or with a fault.
-/

namespace QueryViews

/-- What went wrong, at one level of a chain. -/
inductive ErrorKind
  /-- a message with no further structure -/
  | plain (message : String)
  /-- a failure of a collaborator, known only by its text -/
  | external (message : String)
  | invalidSchema (message : String)
  /-- the mapping does not fit the views found for it -/
  | mapping (message : String) (diagnostics : List Diagnostic)
  /-- no view exists after every source was tried -/
  | viewNotGenerated (extent : String)
  /-- the text of an artifact cannot be read -/
  | malformedArtifact (reason : String)
  deriving DecidableEq

/-- The wording of one kind. A mapping error lists its diagnostics on lines of their own. -/
def ErrorKind.message : ErrorKind → String
  | .plain m => m
  | .external m => m
  | .invalidSchema m => s!"invalid schema: {m}"
  | .mapping m ds => s!"mapping error: {m}" ++ String.join (ds.map fun d => s!"\n  {d.text}")
  | .viewNotGenerated extent => s!"no view was generated for extent `{extent}`"
  | .malformedArtifact reason => s!"malformed artifact: {reason}"

/-- A kind and the kinds below it, down to the root cause. -/
structure Error where
  kind : ErrorKind
  causes : List ErrorKind
  deriving DecidableEq

namespace Error

/-- An error without a cause. -/
def ofKind (k : ErrorKind) : Error := ⟨k, []⟩

/-- An error with nothing but a message. -/
def plain (message : String) : Error := ofKind (.plain message)

/-- A schema that breaks a rule. -/
def invalidSchema (message : String) : Error := ofKind (.invalidSchema message)

/-- A mapping that views cannot be made of, without any diagnostics. -/
def mapping (message : String) : Error := ofKind (.mapping message [])

/-- The generator left the view of an extent out. -/
def viewNotGenerated (extent : String) : Error := ofKind (.viewNotGenerated extent)

/-- All kinds of an error, the latest context first. -/
def chain (e : Error) : List ErrorKind := e.kind :: e.causes

/-- The messages of the chain, from the latest context to the root cause. -/
def message (e : Error) : String :=
  ": ".intercalate (e.chain.map ErrorKind.message)

/-- The same failure, met in the context `k`. -/
def within (e : Error) (k : ErrorKind) : Error := ⟨k, e.chain⟩

/-- The failure `e` met in the context of an error that nobody else holds: that error gives its
kind, and must not have a cause of its own. -/
def context (e consequent : Error) : Except Fault Error :=
  match consequent.causes with
  | [] => .ok (e.within consequent.kind)
  | _ :: _ => .error .alreadyCaused

/-- The failure `e` met in the context of an error that others still hold: only the message of
that error is taken over, neither its kind nor its causes. -/
def contextShared (e consequent : Error) : Error :=
  e.within (.plain consequent.kind.message)

/-- Whether the error or one that it was caused by is about the schema. -/
def isInvalidSchema (e : Error) : Bool :=
  e.chain.any fun | .invalidSchema _ => true | _ => false

/-- Whether the error or one that it was caused by is about the mapping. -/
def isMapping (e : Error) : Bool :=
  e.chain.any fun | .mapping _ _ => true | _ => false

/-- Whether the error or one that it was caused by is about a view that was left out. -/
def isViewNotGenerated (e : Error) : Bool :=
  e.chain.any fun | .viewNotGenerated _ => true | _ => false

/-- Whether the error or one that it was caused by is about an artifact that cannot be read. -/
def isMalformedArtifact (e : Error) : Bool :=
  e.chain.any fun | .malformedArtifact _ => true | _ => false

/-- The diagnostics of the first mapping error in the chain. -/
def diagnostics (e : Error) : List Diagnostic :=
  (e.chain.findSome? fun | .mapping _ ds => some ds | _ => none).getD []

/-- The text of what lies behind the latest kind, for the two kinds that wrap something. -/
def source (e : Error) : Option String :=
  match e.kind with
  | .external m => some m
  | .malformedArtifact _ => some e.kind.message
  | _ => none

end Error

/-! ## Failures -/

/-- How an operation ends without a value; `ε` is the form in which errors are handed out. -/
inductive Failure (ε : Type)
  | fault (f : Fault)
  | error (e : ε)
  deriving DecidableEq

/-- A look-up inside an operation that may also fail with an error. -/
instance {ε : Type} : MonadLift (Except Fault) (Except (Failure ε)) where
  monadLift
    | .ok a => .ok a
    | .error f => .error (.fault f)

/-- Ends with an error to report. -/
def refuse {α : Type} (e : Error) : Except (Failure Error) α := .error (.error e)

/-- The outcome that is published: a value or an error. A fault publishes nothing. -/
def settle {ε α : Type} : Except (Failure ε) α → Except Fault (Except ε α)
  | .ok a => .ok (.ok a)
  | .error (.error e) => .ok (.error e)
  | .error (.fault f) => .error f

end QueryViews
