import QueryViews.Session

/-!
# Answers without memory

A `Reference` answers what a dictionary can be asked, and remembers nothing: every answer is worked
out from the schema, the options, and collaborators that are plain functions. Only one thing in its
answers depends on what was asked before, and that is passed to it: the containers whose pairs were
asked for, from the first to the last. They decide whether artifacts are searched
(`Reference.modeAfter`).
-/

namespace QueryViews

/-- A dictionary without memory, among collaborators that answer equal questions equally. -/
structure Reference (α : Type) where
  schema : Schema
  config : Config
  generate : Request → Except Error Generated
  name : α → String
  /-- the assemblies that it sees -/
  assemblies : List α
  artifacts : α → Except Error (List Artifact)

/-- What there is to an answer but its serial numbers. -/
inductive Reply
  | view (v : View)
  | noView
  | members (ms : List Member)
  | closureHash (h : Option ClosureHash)
  | artifact (a : Artifact)
  | warnings (ds : List Diagnostic)
  | cleared
  | config (c : Config)

/-- An answer without serial numbers. -/
def Answer.reply : Answer → Reply
  | .view v => .view v.value
  | .noView => .noView
  | .members ms => .members ms.value
  | .closureHash h => .closureHash h
  | .artifact a => .artifact a
  | .warnings ds => .warnings ds
  | .cleared => .cleared
  | .config c => .config c

/-- Raises an error as one to report. -/
def reported {β : Type} : Except Error β → Except (Failure Error) β
  | .ok b => .ok b
  | .error e => refuse e

namespace Reference

variable {α : Type} (ref : Reference α)

/-- The error for a container that is not mapped. -/
def notMapped (id : ContainerId) : Except Fault Error := do
  let c ← ref.schema.conceptual.container id
  return .plain s!"container `{c.name}` is not mapped"

/-! ## Adopting artifacts -/

/-- Adds the texts of one artifact, made for the pair of a container, to those adopted so far. -/
def adopt (id : ContainerId) (assembly : String) (views : OrderedMap Extent View) (a : Artifact) :
    Except (Failure Error) (OrderedMap Extent View) := do
  match ClosureHash.parse a.hash with
  | .error _ => return views
  | .ok expected =>
    match ← ClosureHash.compute ref.schema id with
    | none => refuse (← ref.notMapped id)
    | some live =>
      if expected ≠ live then
        refuse (Dictionary.staleArtifact a assembly expected live)
      else
        match Dictionary.namedTexts (← ref.schema.extentsByName id) a with
        | none => return views
        | some texts => reported (Dictionary.addTexts views texts)

/-- Adds the texts of those artifacts of an assembly that were made for the pair of a container. -/
def adoptAssembly (id : ContainerId) (pair : String) (views : OrderedMap Extent View)
    (assembly : α) : Except (Failure Error) (OrderedMap Extent View) :=
  match ref.artifacts assembly with
  | .error _ => return views
  | .ok artifacts =>
    (artifacts.filter (·.pair = pair)).foldlM (ref.adopt id (ref.name assembly)) views

/-- The views that artifacts have for the pair of a container. -/
def lookup (id : ContainerId) : Except (Failure Error) (OrderedMap Extent View) := do
  let pair ← ref.schema.pairName id
  ref.assemblies.foldlM (ref.adoptAssembly id pair) .empty

/-! ## Asking the generator -/

/-- The views that the generator makes for the pair of a container. -/
def generated (id : ContainerId) : Except (Failure Error) (OrderedMap Extent View) := do
  let pair ← ref.schema.pairName id
  let mapping ← ref.schema.mapping.container id
  let made ← reported (ref.generate ⟨ref.schema, mapping, ref.config, .pair id⟩)
  if made.hasErrors then
    refuse (.ofKind (.mapping s!"view generation failed for `{pair}`" made.diagnostics))
  else
    made.toViews ref.schema

/-- The view that the generator makes for an entity set restricted to a type. -/
def typed (k : TypeKey) : Except Fault (Option View) :=
  match ref.schema.mapping.container? k.entitySet.container with
  | none => return none
  | some mapping =>
    match ref.generate ⟨ref.schema, mapping, ref.config, .ofType k⟩ with
    | .error _ => return none
    | .ok made =>
      if made.hasErrors then return none
      else
        match made.views.get? (.entitySet k.entitySet) with
        | none => return none
        | some body => some <$> View.make ref.schema (.ofType k) body .runtime

/-! ## Pairs of containers -/

/-- Whether the search for the pair of a container ends well and finds no view. -/
def vacant (id : ContainerId) : Bool :=
  match ref.lookup id with
  | .ok views => views.isEmpty
  | .error _ => false

/-- Where views come from once the pairs of some containers have been asked for. -/
def modeAfter (asked : List ContainerId) : Mode :=
  if ref.config.preGeneratedViews && !asked.any ref.vacant then .generatedViews
  else .runtimeGeneration

/-- The views of a pair that is first asked for in a mode. -/
def viewsIn (mode : Mode) (id : ContainerId) : Except (Failure Error) (OrderedMap Extent View) :=
  match mode with
  | .runtimeGeneration => ref.generated id
  | .generatedViews => do
    let adopted ← ref.lookup id
    if adopted.isEmpty then ref.generated id else return adopted

/-- The views of a pair, when the pairs of some containers have been asked for: the mode is that
before it was asked for itself. -/
def pairViews (asked : List ContainerId) (id : ContainerId) :
    Except (Failure Error) (OrderedMap Extent View) :=
  ref.viewsIn (ref.modeAfter (asked.takeWhile (· ≠ id))) id

/-! ## Views of extents -/

/-- The views that the user wrote. -/
def userViews : UserViews := .ofMapping ref.schema.mapping

/-- How the view of an extent is found. -/
inductive Route
  | userView (view : View)
  | foreignKey (set : AssociationSetId)
  | pair (container : ContainerId)
  | unmapped (name : String)

/-- The association set that an extent is, if its association is encoded by a foreign key. -/
def foreignKeyRoute? : Extent → Except Fault (Option AssociationSetId)
  | .associationSet id => do
    return if ← ref.schema.hasForeignKeyView id then some id else none
  | _ => .ok none

/-- How the view of an extent is found: the user comes first, then the foreign key, then the
pair. -/
def route (e : Extent) : Except Fault Route :=
  match ref.userViews.get? (.extent e) with
  | some view => return .userView view
  | none => do
    match ← ref.foreignKeyRoute? e with
    | some set => return .foreignKey set
    | none =>
      match ref.schema.canonicalContainer? (← ref.schema.containerOf e) with
      | some container => return .pair container
      | none => return .unmapped (← ref.schema.extentName e)

/-- The view that an association set has by its foreign key. -/
def foreignKeyView (id : AssociationSetId) : Except (Failure Error) View := do
  match ← ref.schema.foreignKeyView id with
  | some view => return view
  | none => refuse (.viewNotGenerated (← ref.schema.extentName (.associationSet id)))

/-- The view of an extent, when the pairs of some containers have been asked for. -/
def view (asked : List ContainerId) (e : Extent) : Except (Failure Error) View := do
  match ← ref.route e with
  | .userView view => return view
  | .foreignKey set => ref.foreignKeyView set
  | .unmapped name => refuse (.viewNotGenerated name)
  | .pair container =>
    match (← ref.pairViews asked container).get? e with
    | some view => return view
    | none => refuse (.viewNotGenerated (← ref.schema.extentName e))

/-- The view of an entity set restricted to a type. No pair has a say in it. -/
def viewOfType (k : TypeKey) : Except Fault (Option View) :=
  match ref.userViews.get? (.ofType k) with
  | some view => return some view
  | none => do
    if (← ref.schema.conceptual.model k.type).isAbstract then return none
    else if ref.userViews.contains (.extent (.entitySet k.entitySet)) then return none
    else ref.typed k

/-! ## Members and artifacts -/

/-- The members that an update has to read. -/
def members (k : MembersKey) : Except (Failure Error) (List Member) :=
  ref.schema.interestingMembers k.entitySet k.type k.scenario

/-- The texts of views under the qualified names of their extents. -/
def textsByName (views : OrderedMap Extent View) : Except Fault (OrderedMap String String) := do
  let texts ← views.entries.mapM fun (e, view) => do
    return (← ref.schema.extentName e, view.text)
  return OrderedMap.ofList texts

/-- The artifact of a container, when the pairs of some containers have been asked for. -/
def artifact (asked : List ContainerId) (id : ContainerId) : Except (Failure Error) Artifact := do
  match ref.schema.canonicalContainer? (.conceptual id) with
  | none => refuse (← ref.notMapped id)
  | some container =>
    let views ← ref.pairViews asked container
    match ← ClosureHash.compute ref.schema container with
    | none => refuse (← ref.notMapped container)
    | some hash =>
      return ⟨← ref.schema.pairName container, hash.text, ← ref.textsByName views⟩

/-! ## Steps -/

/-- The reply to a step, when the pairs of some containers have been asked for. What the generator
warned of is a log and no answer to a question, so there is no reply to that. -/
def reply? (asked : List ContainerId) : Step → Option (Except (Failure Error) Reply)
  | .getView e => some (Reply.view <$> ref.view asked e)
  | .getViewOfType k => some do
    match ← ref.viewOfType k with
    | some v => return .view v
    | none => return .noView
  | .members k => some (Reply.members <$> ref.members k)
  | .closureHash id => some do return .closureHash (← ClosureHash.compute ref.schema id)
  | .exportViews id => some (Reply.artifact <$> ref.artifact asked id)
  | .warnings => none
  | .clearCache => some (.ok .cleared)
  | .config => some (.ok (.config ref.config))

end Reference

end QueryViews
