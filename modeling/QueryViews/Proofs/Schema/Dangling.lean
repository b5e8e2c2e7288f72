import QueryViews.Proofs.Closure.Defined
import QueryViews.Proofs.View.Links

/-!
# Dangling ids

A schema can be built with ids that refer to nothing: verification looks up some of the ids in it
and takes the others on trust. What an id on trust does shows later, where it is followed. A mapped
container has no hash then, and an association set no view (`Schema.Built.links_spec`). The
outpost below is built with a dangling id in every place where one can stand.
-/

namespace QueryViews

/-- **Which ids resolve, and what the others do.** In a built schema every id that is checked
resolves. A mapped container has a hash exactly if all that the hash follows on trust resolves, and
an association set is without a view, and without an error to report, exactly if its view would read
a field on trust that is not there. So none of this fails if all that is trusted resolves. -/
theorem Schema.Built.links_spec {s : Schema} (hs : s.Built) :
    (∀ r, s.Checked r → r.Resolves s) ∧
    (∀ id m, s.mapping.container? id = some m →
      ((∃ h, ClosureHash.compute s id = .ok (some h)) ↔ ∀ r, s.Followed m r → r.Resolves s)) ∧
    (∀ id set a, s.relationshipOf id = .ok (set, a) →
      ((∃ f, s.foreignKeyView id = .error (.fault f)) ↔ ∃ fk, a.foreignKey? = some fk ∧
        a.isAbstract = false ∧ s.rival? id set fk = .ok none ∧
        ∃ pair ∈ fk.fields, ¬ (Link.field pair.source).Resolves s)) ∧
    ((∀ r, s.Trusted r → r.Resolves s) →
      (∀ id m, s.mapping.container? id = some m →
        ∃ h, ClosureHash.compute s id = .ok (some h)) ∧
      ∀ id set, s.conceptual.associationSet id = .ok set →
        ∀ f, s.foreignKeyView id ≠ .error (.fault f)) := by
  refine ⟨fun r => hs.resolves, fun id m hm => hs.exists_compute_iff hm,
    fun id set a hset => hs.foreignKeyView_fault_iff hset, fun htrusted => ⟨fun id m hm => ?_,
      fun id set hset f hf => ?_⟩⟩
  · refine (hs.exists_compute_iff hm).2 fun r hr => htrusted r ?_
    exact hr.trusted (List.mem_of_find?_eq_some hm)
  · obtain ⟨a, ha⟩ := hs.verified.exists_association hset
    obtain ⟨fk, hfk, -, -, pair, hpair, hdangles⟩ :=
      (hs.foreignKeyView_fault_iff (relationshipOf_eq_ok_iff.2 ⟨hset, ha⟩)).1 ⟨f, hf⟩
    exact hdangles (htrusted _ (.source ha (Association.mem_of_foreignKey? hfk) hpair))

/-- The shop has a hash, so all that its hash follows is there. -/
theorem Shop.followed_resolves : ∃ m, (schema "Item" "Tag").mapping.container? ⟨0⟩ = some m ∧
    ∀ r, (schema "Item" "Tag").Followed m r → r.Resolves (schema "Item" "Tag") := by
  obtain ⟨-, hhash, -⟩ := built.links_spec
  refine ⟨_, rfl, (hhash ⟨0⟩ _ rfl).1 ⟨.ofContent (content "Item" "Tag"), ?_⟩⟩
  rw [ClosureHash.compute, content_eq]
  rfl

/-! ## An outpost -/

namespace Outpost

/-- The mapping of the set of posts, in which nothing but the extent and the table is there. -/
def typeMapping : TypeMapping where
  types := [⟨11⟩]
  isOfTypes := [⟨12⟩]
  fragments := [⟨⟨0⟩,
    [.scalar ⟨⟨⟨9⟩, 0⟩, ⟨⟨0⟩, 9⟩⟩, .embedded ⟨⟨9⟩, 1⟩ [.scalar ⟨⟨⟨9⟩, 2⟩, ⟨⟨0⟩, 8⟩⟩],
      .ends ⟨⟨9⟩, 0⟩ [⟨⟨⟨9⟩, 3⟩, ⟨⟨0⟩, 7⟩⟩]],
    [⟨.field ⟨⟨9⟩, 4⟩, .isNull⟩, ⟨.column ⟨⟨0⟩, 6⟩, .isNotNull⟩]⟩]

/-- A function of a type that is not there, with parameters that are taken from what is not
there. -/
def insert : FunctionMapping := ⟨⟨13⟩, .insert, "add", [⟨"p", .path [⟨⟨9⟩, 5⟩], .current⟩,
  ⟨"q", .farEnd ⟨⟨9⟩, 1⟩ ⟨⟨9⟩, 6⟩, .current⟩]⟩

/-- The mapping of the set of posts. -/
def posts : ExtentMapping :=
  ⟨.entitySet ⟨⟨0⟩, 0⟩, none, [⟨⟨10⟩, true, "mine"⟩], [typeMapping], [insert]⟩

/-- Guards name their post with a field that they do not have. One set has no element type, and a
container that is not there is mapped. -/
def declarations : List Declaration := [
  .entity "Post", .field .key ⟨0⟩ "Id" .int32, .entity "Guard", .field .key ⟨1⟩ "Id" .int32,
  .association "GuardPost" (⟨1⟩, .many) (⟨0⟩, .zeroOrOne),
  .foreignKey ⟨0⟩ 1 [⟨⟨⟨1⟩, 9⟩, ⟨⟨0⟩, 0⟩⟩],
  .container "Outpost", .entitySet ⟨0⟩ "Posts" ⟨0⟩, .entitySet ⟨0⟩ "Guards" ⟨1⟩,
  .entitySet ⟨0⟩ "Lost" ⟨9⟩, .associationSet ⟨0⟩ "GuardPosts" ⟨0⟩ ⟨⟨⟨0⟩, 1⟩, ⟨⟨0⟩, 0⟩⟩,
  .storeContainer "Db", .storeContainer "Spare", .table ⟨0⟩ "Posts",
  .mapContainers ⟨0⟩ ⟨0⟩, .mapContainers ⟨9⟩ ⟨1⟩,
  .mapExtent (.entitySet ⟨⟨0⟩, 0⟩) (.typeView ⟨⟨10⟩, true, "mine"⟩),
  .mapExtent (.entitySet ⟨⟨0⟩, 0⟩) (.typeMapping typeMapping),
  .mapExtent (.entitySet ⟨⟨0⟩, 0⟩) (.function insert)]

/-- The schema that they make. -/
def schema : Schema where
  conceptual := {
    models := [
      ⟨"Post", [⟨"Id", .scalar .int32, false, false⟩], .entity ⟨none, false, [⟨⟨0⟩, 0⟩]⟩⟩,
      ⟨"Guard", [⟨"Id", .scalar .int32, false, false⟩], .entity ⟨none, false, [⟨⟨1⟩, 0⟩]⟩⟩]
    associations := [⟨"GuardPost", ⟨⟨"Guard", ⟨1⟩, .many⟩, ⟨"Post", ⟨0⟩, .zeroOrOne⟩⟩,
      [⟨1, 0, [⟨⟨⟨1⟩, 9⟩, ⟨⟨0⟩, 0⟩⟩]⟩], true, false⟩]
    containers := [⟨"Outpost", [⟨"Posts", ⟨0⟩⟩, ⟨"Guards", ⟨1⟩⟩, ⟨"Lost", ⟨9⟩⟩],
      [⟨"GuardPosts", ⟨0⟩, ⟨⟨0⟩, 1⟩, ⟨⟨0⟩, 0⟩⟩]⟩] }
  store := ⟨[⟨"Db", [⟨0⟩]⟩, ⟨"Spare", []⟩], [⟨⟨0⟩, "Posts", [], []⟩]⟩
  mapping := ⟨[⟨⟨0⟩, ⟨0⟩, [posts]⟩, ⟨⟨9⟩, ⟨1⟩, []⟩]⟩

/-- One id for every place: the type of a view, the types of a type mapping, the fields, columns and
ends of its properties and conditions, and the type, fields and ends of a function. -/
def mapped : List Link := [
  .model ⟨10⟩, .model ⟨11⟩, .model ⟨12⟩, .field ⟨⟨9⟩, 0⟩, .column ⟨⟨0⟩, 9⟩, .field ⟨⟨9⟩, 1⟩,
  .field ⟨⟨9⟩, 2⟩, .column ⟨⟨0⟩, 8⟩, .associationEnd ⟨⟨9⟩, 0⟩, .field ⟨⟨9⟩, 3⟩, .column ⟨⟨0⟩, 7⟩,
  .field ⟨⟨9⟩, 4⟩, .column ⟨⟨0⟩, 6⟩, .model ⟨13⟩, .field ⟨⟨9⟩, 5⟩, .associationEnd ⟨⟨9⟩, 1⟩,
  .field ⟨⟨9⟩, 6⟩]

theorem links_posts : posts.links = mapped := rfl

end Outpost

/-- The outpost is built, though in every place where an id is taken on trust there is one that
dangles. Its container has no hash, and its association set neither a view nor an error. -/
theorem Outpost.dangles : schema.Built ∧
    (∀ r ∈ .container ⟨9⟩ :: .model ⟨9⟩ :: .field ⟨⟨1⟩, 9⟩ :: mapped,
      schema.Trusted r ∧ ¬ r.Resolves schema) ∧
    (∃ f, ClosureHash.compute schema ⟨0⟩ = .error f) ∧
    ∃ f, schema.foreignKeyView ⟨⟨0⟩, 0⟩ = .error (.fault f) := by
  refine ⟨⟨declarations, _, by cbv⟩, fun r hr => ⟨?_, ?_⟩, ⟨.noModel ⟨9⟩, rfl⟩,
    ⟨.noField ⟨⟨1⟩, 9⟩, rfl⟩⟩
  · have hspare : (⟨⟨9⟩, ⟨1⟩, []⟩ : ContainerMapping) ∈ schema.mapping.containers :=
      .tail _ (.head _)
    have hlost : schema.conceptual.entitySet ⟨⟨0⟩, 2⟩ = .ok ⟨"Lost", ⟨9⟩⟩ := rfl
    have hguardPost : schema.conceptual.association ⟨0⟩ =
        .ok schema.conceptual.associations[0] := rfl
    simp only [List.mem_cons] at hr
    rcases hr with rfl | rfl | rfl | hr
    · exact .container hspare
    · exact .element hlost
    · exact .source hguardPost (.head _) (.head _)
    · exact .mapped (.head _) (.head _) (links_posts ▸ hr)
  · revert r
    decide

end QueryViews
