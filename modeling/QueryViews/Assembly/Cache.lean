import QueryViews.Act
import QueryViews.Artifact

/-!
# The cache of assembly scans

A `Host` is what the surroundings do for dictionaries: it scans for assemblies and loads their
artifacts. Both may change the host's own state, of type `ω`, and need not answer the same way
twice. The cache keeps the list of a scan until it is cleared, so that at most one scan falls
between two clearings.
-/

namespace QueryViews

variable {α ω : Type}

/-- Finds assemblies of type `α` and loads them, with a state of type `ω`. -/
structure Host (α ω : Type) where
  name : α → String
  scan : Act ω Fault (List α)
  /-- an error makes the assembly useless as a source of artifacts -/
  load : α → Act ω (Failure Error) (List Artifact)

/-- The same host without any assembly. -/
def Host.withoutAssemblies (host : Host α ω) : Host α ω := { host with scan := pure [] }

/-- The list of the last scan, if there was one since the last clearing. -/
abbrev ScanCache (α : Type) := Option (List α)

/-- The assemblies to search: those of the last scan, or those of a scan made now. -/
def Host.candidates (host : Host α ω) : Act (ScanCache α × ω) Fault (List α) := fun (kept, w) =>
  match kept with
  | some found => (.ok found, kept, w)
  | none =>
    match host.scan w with
    | (.ok found, w) => (.ok found, some found, w)
    | (.error f, w) => (.error f, none, w)

end QueryViews
