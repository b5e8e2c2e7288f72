import QueryViews.Act

/-!
# Sources of assemblies

A source says which assemblies are searched for artifacts. The usual one takes the assemblies that
are known, then an entry assembly with the assemblies it refers to directly, and of several
assemblies of one name only the first. What the entry refers to is asked once and then kept, so
that every scan gives the same list.

Assemblies are whatever the host has: here they are of some type `α` with a name.
-/

namespace QueryViews

variable {α ω : Type}

/-- The first element of each name, in order, without the names seen before. -/
def firstOfEachName (name : α → String) : List String → List α → List α
  | _, [] => []
  | seen, a :: rest =>
    if name a ∈ seen then firstOfEachName name seen rest
    else a :: firstOfEachName name (name a :: seen) rest

/-- Known assemblies and an entry assembly. -/
structure DefaultSource (α : Type) where
  known : List α
  entry : Option α

/-- What a source keeps between scans: the entry and what it refers to, once that was asked. -/
abbrev EntryClosure (α : Type) := Option (List α)

namespace DefaultSource

/-- The entry and what it refers to: as kept, or else asked for now. -/
def entryClosure (source : DefaultSource α) (references : α → Act ω Fault (List α)) :
    Act (EntryClosure α × ω) Fault (List α) := fun (kept, w) =>
  match kept, source.entry with
  | some closure, _ => (.ok closure, kept, w)
  | none, none => (.ok [], some [], w)
  | none, some entry =>
    match references entry w with
    | (.ok others, w) => (.ok (entry :: others), some (entry :: others), w)
    | (.error f, w) => (.error f, none, w)

/-- The assemblies to search. -/
def scan (source : DefaultSource α) (name : α → String)
    (references : α → Act ω Fault (List α)) : Act (EntryClosure α × ω) Fault (List α) := do
  let closure ← source.entryClosure references
  return firstOfEachName name [] (source.known ++ closure)

end DefaultSource

end QueryViews
