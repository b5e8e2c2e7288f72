import QueryViews.Act
import QueryViews.View.Basic

/-!
# View generators

The algorithm that makes views from mappings is not part of this library: a generator is given. It
is asked for the views of a whole pair of containers or for the view of one entity set restricted
to a type, and answers with views and diagnostics. Problems with the mapping are diagnostics; an
error is a failure of the generator itself.
-/

namespace QueryViews

/-- The options of a dictionary, which its generator sees too. -/
structure Config where
  /-- look for artifacts before asking the generator -/
  preGeneratedViews : Bool
  generateUpdateViews : Bool
  validate : Bool
  deriving DecidableEq

/-- What a generator is asked for. -/
inductive Operation
  /-- the views of every extent of a pair of containers -/
  | pair (container : ContainerId)
  /-- the view of one entity set restricted to a type -/
  | ofType (key : TypeKey)
  deriving DecidableEq

/-- A question to a generator, with all that it may look at. -/
structure Request where
  schema : Schema
  mapping : ContainerMapping
  config : Config
  operation : Operation

/-- What a generator made. -/
structure Generated where
  views : OrderedMap Extent ViewBody
  diagnostics : List Diagnostic

namespace Generated

/-- Whether the generator found an error; then its views are not used. -/
def hasErrors (g : Generated) : Bool := g.diagnostics.any Diagnostic.isError

/-- The warnings of a generator call, in their order. -/
def warnings (g : Generated) : List Diagnostic := g.diagnostics.filter Diagnostic.isWarning

/-- The bodies made, as views of their extents. -/
def toViews (g : Generated) (s : Schema) : Except Fault (OrderedMap Extent View) := do
  let views ← g.views.entries.mapM fun (e, body) => do
    return (e, ← View.make s (.extent e) body .runtime)
  return OrderedMap.ofList views

end Generated

/-- A generator, with a state of type `ω`. -/
abbrev Generator (ω : Type) := Request → Act ω (Failure Error) Generated

end QueryViews
