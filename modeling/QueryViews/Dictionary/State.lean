import QueryViews.Assembly.Cache
import QueryViews.Closure.Hash
import QueryViews.Generator
import QueryViews.Members
import QueryViews.Memo
import QueryViews.View.ForeignKey
import QueryViews.View.UserDefined

/-!
# The state of a dictionary

A dictionary answers from memo tables that only grow, and it has a mode that changes at most once.
Whatever it hands out carries a serial number, given when the thing was made: two answers are the
same view, or the same error, exactly if their numbers agree. Equal answers that were made anew have
different numbers.

A `Scene` is what a step of a dictionary works on: its tables, the scan cache that it shares, and
the state of its surroundings.
-/

namespace QueryViews

/-- Something handed out, with the serial number that tells it apart from all others. -/
structure Published (α : Type) where
  serial : Nat
  value : α

/-- Where the views of containers come from. -/
inductive Mode
  /-- artifacts are searched before the generator is asked -/
  | generatedViews
  /-- the generator makes every view -/
  | runtimeGeneration
  deriving DecidableEq

/-- The mode as it is reported. -/
def Mode.name : Mode → String
  | .generatedViews => "GeneratedViews"
  | .runtimeGeneration => "RuntimeGeneration"

/-- What was resolved: a value, or an error that is handed out again whenever it is asked for. -/
abbrev Resolved (α : Type) := Except (Published Error) α

/-- The views of a pair of containers under their extents. -/
abbrev PairViews := OrderedMap Extent (Published View)

/-- What the members of a type are kept under. -/
structure MembersKey where
  entitySet : EntitySetId
  type : ModelId
  scenario : Scenario
  deriving DecidableEq

/-- All that a dictionary remembers. -/
structure Tables where
  mode : Mode
  /-- the views of pairs, under the conceptual side -/
  pairs : Memo ContainerId (Resolved PairViews)
  /-- none where a view for the type cannot be made -/
  typed : Memo TypeKey (Option (Published View))
  foreignKeys : Memo AssociationSetId (Resolved (Published View))
  hashes : Memo ContainerId (Option ClosureHash)
  members : Memo MembersKey (Resolved (Published (List Member)))
  /-- the warnings of the generator, in the order in which they came -/
  warnings : List Diagnostic
  /-- greater than every serial number given so far -/
  nextSerial : Nat

/-- What a step of a dictionary works on. -/
structure Scene (α ω : Type) where
  tables : Tables
  cache : ScanCache α
  world : ω

namespace Scene

variable {α ω β ε : Type}

/-! ## Shelves -/

/-- The resolved pairs. -/
def pairs : Shelf (Scene α ω) ContainerId (Resolved PairViews) :=
  ⟨(·.tables.pairs), fun m s => { s with tables.pairs := m }, fun _ _ => rfl⟩

/-- The generated views of types. -/
def typed : Shelf (Scene α ω) TypeKey (Option (Published View)) :=
  ⟨(·.tables.typed), fun m s => { s with tables.typed := m }, fun _ _ => rfl⟩

/-- The views by foreign keys. -/
def foreignKeys : Shelf (Scene α ω) AssociationSetId (Resolved (Published View)) :=
  ⟨(·.tables.foreignKeys), fun m s => { s with tables.foreignKeys := m }, fun _ _ => rfl⟩

/-- The hashes of pairs. -/
def hashes : Shelf (Scene α ω) ContainerId (Option ClosureHash) :=
  ⟨(·.tables.hashes), fun m s => { s with tables.hashes := m }, fun _ _ => rfl⟩

/-- The members that updates have to read. -/
def members : Shelf (Scene α ω) MembersKey (Resolved (Published (List Member))) :=
  ⟨(·.tables.members), fun m s => { s with tables.members := m }, fun _ _ => rfl⟩

/-! ## The surroundings -/

/-- A step of the world. -/
def inWorld (x : Act ω ε β) : Act (Scene α ω) ε β :=
  x.zoom (·.world) fun w s => { s with world := w }

/-- A step of the scan cache and the world. -/
def inCache (x : Act (ScanCache α × ω) ε β) : Act (Scene α ω) ε β :=
  x.zoom (fun s => (s.cache, s.world)) fun (cache, world) s => { s with cache, world }

/-! ## Publishing -/

/-- Gives a serial number. -/
def issue (b : β) : Act (Scene α ω) ε (Published β) := fun s =>
  (.ok ⟨s.tables.nextSerial, b⟩, { s with tables.nextSerial := s.tables.nextSerial + 1 })

/-- Gives serial numbers to the values of a map, in order. -/
def issueAll {κ : Type} (m : OrderedMap κ β) :
    Act (Scene α ω) ε (OrderedMap κ (Published β)) := fun s =>
  let next := s.tables.nextSerial
  (.ok (m.mapIdx Published.mk next), { s with tables.nextSerial := next + m.size })

/-- Ends with an error that is handed out this once. -/
def raise (e : Error) : Act (Scene α ω) (Failure (Published Error)) β := do
  Act.stop (.error (← issue e))

/-- What was resolved: the value, or an end with the error. -/
def unwrap : Resolved β → Act (Scene α ω) (Failure (Published Error)) β
  | .ok b => return b
  | .error e => Act.stop (.error e)

/-- Takes a mode, and forgets the one before. -/
def setMode (mode : Mode) : Act (Scene α ω) ε Unit :=
  Act.modify fun s => { s with tables.mode := mode }

/-- Appends the warnings of a generator call to those before. -/
def recordWarnings (g : Generated) : Act (Scene α ω) ε Unit :=
  Act.modify fun s => { s with tables.warnings := s.tables.warnings ++ g.warnings }

end Scene

end QueryViews
