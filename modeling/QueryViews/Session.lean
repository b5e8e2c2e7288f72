import QueryViews.Dictionary.Basic

/-!
# Sessions

Several dictionaries over one scan cache, in one world. A session takes one step at a time, each
of one dictionary. A dictionary that does not share the assemblies sees none and leaves the cache
alone.
-/

namespace QueryViews

/-- What a dictionary can be asked. -/
inductive Step
  | getView (e : Extent)
  | getViewOfType (k : TypeKey)
  | members (k : MembersKey)
  | closureHash (id : ContainerId)
  | exportViews (id : ContainerId)
  | warnings
  | clearCache
  | config

/-- What a call answers. -/
inductive Answer
  | view (v : Published View)
  /-- there is no view for the type -/
  | noView
  | members (ms : Published (List Member))
  | closureHash (h : Option ClosureHash)
  | artifact (a : Artifact)
  | warnings (ds : List Diagnostic)
  | cleared
  | config (c : Config)

variable {α ω : Type}

/-- The answer of a dictionary to a step. -/
def Dictionary.perform (d : Dictionary ω) (host : Host α ω) :
    Step → Act (Scene α ω) (Failure (Published Error)) Answer
  | .getView e => return .view (← d.getView host e)
  | .getViewOfType k => do
    match ← (d.getViewOfType k).widen with
    | some v => return .view v
    | none => return .noView
  | .members k => return .members (← d.interestingMembers k)
  | .closureHash id => return .closureHash (← (d.closureHash id).widen)
  | .exportViews id => return .artifact (← d.exportViews host id)
  | .warnings => return .warnings (← Act.state).tables.warnings
  | .clearCache => do
    clearCache
    return .cleared
  | .config => return .config d.config

/-- Dictionaries with what they remember, and what they share. -/
structure Session (α ω : Type) where
  host : Host α ω
  dictionaries : List (Dictionary ω × Tables)
  cache : ScanCache α
  world : ω

namespace Session

/-- The outcome of a step of the dictionary at a place, and the session after it; nothing if there
is no dictionary there. -/
def step (s : Session α ω) (place : Nat) (step : Step) :
    Option (Except (Failure (Published Error)) Answer × Session α ω) :=
  match s.dictionaries[place]? with
  | none => none
  | some (d, tables) =>
    let host := if d.sharesAssemblies then s.host else s.host.withoutAssemblies
    let cache := if d.sharesAssemblies then s.cache else none
    let (outcome, scene) := (d.perform host step).run ⟨tables, cache, s.world⟩
    some (outcome, { s with
      dictionaries := s.dictionaries.set place (d, scene.tables)
      cache := if d.sharesAssemblies then scene.cache else s.cache
      world := scene.world })

end Session

end QueryViews
