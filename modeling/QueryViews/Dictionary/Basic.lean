import QueryViews.Dictionary.State

/-!
# View dictionaries

A dictionary finds the views of a mapped schema. The view of an extent comes from the first of
these that has one:

* **the user** — a view written in the mapping;
* **a foreign key** — for an association set whose relationship a foreign key encodes;
* **the pair** — the views of the pair of containers that the extent belongs to.

The views of a pair are resolved together, on the first request for any of them: they are
**adopted** from artifacts that fit the mapping, or else **generated**. As soon as a search finds no
artifact, artifacts are never searched again.

What was resolved, failures included, is handed out unchanged from then on.
-/

namespace QueryViews

/-- A schema, the options, and the generator that makes views for it. -/
structure Dictionary (ω : Type) where
  schema : Schema
  config : Config
  generator : Generator ω
  /-- whether it searches the assemblies of its surroundings; it sees none otherwise -/
  sharesAssemblies : Bool
  userViews : OrderedMap ViewKey (Published View)

namespace Dictionary

variable {α ω : Type}

/-- A new dictionary and what it remembers at first. A generator has to be given. -/
def start (schema : Schema) (config : Config) (generator : Option (Generator ω))
    (sharesAssemblies : Bool) : Except Error (Dictionary ω × Tables) :=
  match generator with
  | none => .error (.plain "a view generator is required")
  | some generator =>
    let views := UserViews.ofMapping schema.mapping
    let userViews := views.mapIdx Published.mk 0
    let mode := if config.preGeneratedViews then .generatedViews else .runtimeGeneration
    .ok (⟨schema, config, generator, sharesAssemblies, userViews⟩,
      ⟨mode, .empty, .empty, .empty, .empty, .empty, [], views.size⟩)

/-- The error for a container that takes part in no mapping. -/
def notMapped (d : Dictionary ω) (id : ContainerId) : Except Fault Error := do
  let c ← d.schema.conceptual.container id
  return .plain s!"container `{c.name}` is not mapped"

/-- The hash of the mapping of a container; none if it is not mapped. -/
def closureHash (d : Dictionary ω) (id : ContainerId) :
    Act (Scene α ω) Fault (Option ClosureHash) :=
  Scene.hashes.getOrCompute id (Act.ofExcept (ClosureHash.compute d.schema id))

/-! ## Adopting artifacts -/

/-- The extents that an artifact names, with their names and texts; none if it names an extent
that the pair does not have. -/
def namedTexts (names : OrderedMap String Extent) (a : Artifact) :
    Option (List (Extent × String × String)) :=
  a.views.entries.mapM fun (name, text) => (names.get? name).map fun e => (e, name, text)

/-- Adds the texts of one artifact to those adopted so far. No extent may have two. -/
def addTexts (views : OrderedMap Extent View) (texts : List (Extent × String × String)) :
    Except Error (OrderedMap Extent View) :=
  texts.foldlM (fun views (e, name, text) =>
    if views.contains e then
      .error (.mapping s!"extent `{name}` has views in more than one pre-generated artifact")
    else .ok (views.insert e (.ofText (.extent e) text .preGenerated))) views

/-- The error for an artifact that was made from another mapping. -/
def staleArtifact (a : Artifact) (assembly : String) (expected live : ClosureHash) : Error :=
  .mapping (s!"pre-generated views for `{a.pair}` in assembly `{assembly}` do not match the " ++
    s!"mapping (artifact hash {expected.text}, mapping hash {live.text}); regenerate the views")

/-- Adopts an artifact made for the pair of a container. One with an unreadable hash or with an
unknown name is passed over; one with the hash of another mapping is an error. -/
def adopt (d : Dictionary ω) (id : ContainerId) (assembly : String)
    (views : OrderedMap Extent View) (a : Artifact) :
    Act (Scene α ω) (Failure Error) (OrderedMap Extent View) := do
  match ClosureHash.parse a.hash with
  | .error _ => return views
  | .ok expected =>
    match ← (d.closureHash id).widen with
    | none => refuse (← d.notMapped id)
    | some live =>
      if expected ≠ live then
        refuse (staleArtifact a assembly expected live)
      else
        match namedTexts (← d.schema.extentsByName id) a with
        | none => return views
        | some texts =>
          match addTexts views texts with
          | .ok views => return views
          | .error e => refuse e

/-- Adopts what one assembly has for the pair. An assembly that cannot be loaded is passed over. -/
def adoptAssembly (d : Dictionary ω) (host : Host α ω) (id : ContainerId) (pair : String)
    (views : OrderedMap Extent View) (assembly : α) :
    Act (Scene α ω) (Failure Error) (OrderedMap Extent View) := do
  match ← (Scene.inWorld (host.load assembly)).settled.widen with
  | .error _ => return views
  | .ok artifacts =>
    (artifacts.filter (·.pair = pair)).foldlM (d.adopt id (host.name assembly)) views

/-- The views that artifacts have for the pair of a container, assembly after assembly. -/
def preGenerated (d : Dictionary ω) (host : Host α ω) (id : ContainerId) :
    Act (Scene α ω) (Failure Error) (OrderedMap Extent View) := do
  let pair ← d.schema.pairName id
  let candidates ← (Scene.inCache host.candidates).widen
  candidates.foldlM (d.adoptAssembly host id pair) .empty

/-! ## Asking the generator -/

/-- Puts a question about a mapping to the generator. -/
def ask (d : Dictionary ω) (mapping : ContainerMapping) (operation : Operation) :
    Act (Scene α ω) (Failure Error) Generated :=
  Scene.inWorld (d.generator ⟨d.schema, mapping, d.config, operation⟩)

/-- The views that the generator makes for the pair of a container. -/
def generatePair (d : Dictionary ω) (id : ContainerId) :
    Act (Scene α ω) (Failure Error) (OrderedMap Extent View) := do
  let pair ← d.schema.pairName id
  let mapping ← d.schema.mapping.container id
  let generated ← d.ask mapping (.pair id)
  if generated.hasErrors then
    refuse (.ofKind (.mapping s!"view generation failed for `{pair}`" generated.diagnostics))
  else
    Scene.recordWarnings generated
    generated.toViews d.schema

/-- The view that the generator makes for an entity set restricted to a type. There is none if
the container is not mapped, or if the generator fails, reports errors or leaves the set out. -/
def generateTyped (d : Dictionary ω) (k : TypeKey) :
    Act (Scene α ω) Fault (Option View) := do
  match d.schema.mapping.container? k.entitySet.container with
  | none => return none
  | some mapping =>
    match ← (d.ask mapping (.ofType k)).settled with
    | .error _ => return none
    | .ok generated =>
      if generated.hasErrors then
        return none
      else
        Scene.recordWarnings generated
        match generated.views.get? (.entitySet k.entitySet) with
        | none => return none
        | some body => return some (← View.make d.schema (.ofType k) body .runtime)

/-! ## Pairs of containers -/

/-- The first resolution of a pair: the mode decides whether artifacts are searched, and a search
that finds none ends the mode. -/
def resolvePair (d : Dictionary ω) (host : Host α ω) (id : ContainerId) :
    Act (Scene α ω) (Failure Error) (OrderedMap Extent View) := do
  match (← Act.state).tables.mode with
  | .runtimeGeneration => d.generatePair id
  | .generatedViews =>
    let adopted ← d.preGenerated host id
    if adopted.isEmpty then
      Scene.setMode .runtimeGeneration
      d.generatePair id
    else
      return adopted

/-- The views of the pair of a container. -/
def pairViews (d : Dictionary ω) (host : Host α ω) (id : ContainerId) :
    Act (Scene α ω) Fault (Resolved PairViews) :=
  Scene.pairs.getOrCompute id do
    match ← (d.resolvePair host id).settled with
    | .ok views => return .ok (← Scene.issueAll views)
    | .error e => return .error (← Scene.issue e)

/-! ## Views of extents -/

/-- How the view of an extent is found. -/
inductive Route
  | userView (view : Published View)
  | foreignKey (set : AssociationSetId)
  | pair (container : ContainerId)
  /-- the container of the extent, which has this name, takes part in no mapping -/
  | unmapped (name : String)

/-- Whether the view of an extent is made from a foreign key. -/
def foreignKeyRoute? (d : Dictionary ω) : Extent → Except Fault (Option AssociationSetId)
  | .associationSet id => do
    return if ← d.schema.hasForeignKeyView id then some id else none
  | _ => .ok none

/-- Where the view of an extent comes from: the user's own view, then the foreign key, then the pair
that the container belongs to; without any of these there is no mapping. -/
def route (d : Dictionary ω) (e : Extent) : Except Fault Route := do
  match d.userViews.get? (.extent e) with
  | some view => return .userView view
  | none =>
    match ← d.foreignKeyRoute? e with
    | some set => return .foreignKey set
    | none =>
      match d.schema.canonicalContainer? (← d.schema.containerOf e) with
      | some container => return .pair container
      | none => return .unmapped (← d.schema.extentName e)

/-- The view that an association set has by its foreign key. -/
def foreignKeyView (d : Dictionary ω) (id : AssociationSetId) :
    Act (Scene α ω) Fault (Resolved (Published View)) :=
  Scene.foreignKeys.getOrCompute id do
    match ← settle (d.schema.foreignKeyView id) with
    | .ok (some view) => return .ok (← Scene.issue view)
    | .ok none =>
      return .error (← Scene.issue (.viewNotGenerated (← d.schema.extentName (.associationSet id))))
    | .error e => return .error (← Scene.issue e)

/-- The view of an extent. -/
def getView (d : Dictionary ω) (host : Host α ω) (e : Extent) :
    Act (Scene α ω) (Failure (Published Error)) (Published View) := do
  match ← d.route e with
  | .userView view => return view
  | .foreignKey set => Scene.unwrap (← (d.foreignKeyView set).widen)
  | .unmapped name => Scene.raise (.viewNotGenerated name)
  | .pair container =>
    let views ← Scene.unwrap (← (d.pairViews host container).widen)
    match views.get? e with
    | some view => return view
    | none => Scene.raise (.viewNotGenerated (← d.schema.extentName e))

/-- The view of an entity set restricted to a type; none if the type is abstract, if the user
replaced the view of the set and gave none for the type, or if it cannot be made. -/
def getViewOfType (d : Dictionary ω) (k : TypeKey) :
    Act (Scene α ω) Fault (Option (Published View)) := do
  match d.userViews.get? (.ofType k) with
  | some view => return some view
  | none =>
    if (← d.schema.conceptual.model k.type).isAbstract then
      return none
    else if d.userViews.contains (.extent (.entitySet k.entitySet)) then
      return none
    else
      Scene.typed.getOrCompute k do
        match ← d.generateTyped k with
        | some view => return some (← Scene.issue view)
        | none => return none

/-! ## Members and artifacts -/

/-- The members of a type that matter in an entity set, or the error for asking. -/
def resolveMembers (d : Dictionary ω) (k : MembersKey) :
    Act (Scene α ω) Fault (Resolved (Published (List Member))) :=
  Scene.members.getOrCompute k do
    match ← settle (d.schema.interestingMembers k.entitySet k.type k.scenario) with
    | .ok members => return .ok (← Scene.issue members)
    | .error e => return .error (← Scene.issue e)

/-- The members of a type that matter in an entity set. -/
def interestingMembers (d : Dictionary ω) (k : MembersKey) :
    Act (Scene α ω) (Failure (Published Error)) (Published (List Member)) := do
  Scene.unwrap (← (d.resolveMembers k).widen)

/-- The texts of the views of a pair under the qualified names of their extents. -/
def textsByName (d : Dictionary ω) (views : PairViews) :
    Except Fault (OrderedMap String String) := do
  let texts ← views.entries.mapM fun (e, view) => do
    return (← d.schema.extentName e, view.value.text)
  return OrderedMap.ofList texts

/-- The views of the pair of a container as an artifact that other dictionaries can adopt. -/
def exportViews (d : Dictionary ω) (host : Host α ω) (id : ContainerId) :
    Act (Scene α ω) (Failure (Published Error)) Artifact := do
  match d.schema.canonicalContainer? (.conceptual id) with
  | none => Scene.raise (← d.notMapped id)
  | some container =>
    let views ← Scene.unwrap (← (d.pairViews host container).widen)
    match ← (d.closureHash container).widen with
    | none => Scene.raise (← d.notMapped container)
    | some hash =>
      return ⟨← d.schema.pairName container, hash.text, ← d.textsByName views⟩

/-- Forgets the last scan for assemblies; what was resolved stays. -/
def clearCache : Act (Scene α ω) (Failure (Published Error)) Unit :=
  Act.modify fun s => { s with cache := none }

end Dictionary

end QueryViews
