import QueryViews.Proofs.Closure.Sameness

/-!
# Foreign keys by name

The content of a mapped container says by name all that the view of a foreign key is made of: the
relationship of an association set, the sets that are bound to its ends, the keys of the two types,
and the fields that hold the values of the principal's key (`Content.Encodes`). Nothing of that
depends on an order that carries no meaning (`Content.Encodes.of_same`).

It says so once (`Content.Encodes.unique`) if it is clear what a name stands for. The names of sets
and of types are different (`Content.NamesApart`), but the names of relationships need not be, nor
the names of the fields of a type; that they are, as far as one association set is concerned, is a
condition (`Content.Distinguishes`).
-/

namespace QueryViews

namespace Content

/-- The name of the base, if there is one. -/
def TypeKind.base? : TypeKind → Option String
  | .entity base _ _ => base
  | .embedded => none

/-- The key that the type declares itself. -/
def TypeKind.key : TypeKind → List FieldName
  | .entity _ _ key => key
  | .embedded => []

/-- The constraint of a relationship that is encoded by it: there must be exactly one. -/
def Association.foreignKey? (a : Association) : Option ForeignKey :=
  match a.constraints with
  | [fk] => if a.isForeignKey then some fk else none
  | _ => none

variable {k k' : Content}

/-! ## Keys -/

/-- The key of a type: the last type above it declares it. -/
inductive Key (k : Content) : String → List FieldName → Prop
  | root {t : TypeContent} (ht : t ∈ k.types) (hbase : t.kind.base? = none) :
    Key k t.name t.kind.key
  | derived {t : TypeContent} {base : String} {key : List FieldName} (ht : t ∈ k.types)
    (hbase : t.kind.base? = some base) (rest : Key k base key) : Key k t.name key

/-- Sets and types go by different names. -/
structure NamesApart (k : Content) : Prop where
  associationSets : ∀ set ∈ k.associationSets, ∀ set' ∈ k.associationSets,
    set.name = set'.name → set = set'
  entitySets : ∀ set ∈ k.entitySets, ∀ set' ∈ k.entitySets, set.name = set'.name → set = set'
  types : ∀ t ∈ k.types, ∀ t' ∈ k.types, t.name = t'.name → t = t'

/-- Where no two types have one name, a name has one key. -/
theorem Key.unique (hk : k.NamesApart) {n : String} {key key' : List FieldName} (h : k.Key n key)
    (h' : k.Key n key') : key = key' := by
  -- on the way up to the type that has the key
  induction h generalizing key' with
  | @root t ht hbase =>
    generalize hn : t.name = n at h'
    cases h' with
    | root ht' => rw [hk.types _ ht _ ht' hn]
    | derived ht' hbase' =>
      cases hk.types _ ht _ ht' hn
      cases hbase.symm.trans hbase'
  | @derived t base key ht hbase rest ih =>
    generalize hn : t.name = n at h'
    cases h' with
    | root ht' hbase' =>
      cases hk.types _ ht _ ht' hn
      cases hbase.symm.trans hbase'
    | derived ht' hbase' rest' =>
      cases hk.types _ ht _ ht' hn
      cases hbase.symm.trans hbase'
      exact ih rest'

/-- Contents that say the same tell the same keys. -/
theorem Key.of_same (hsame : k.Same k') {n : String} {key : List FieldName} (h : k.Key n key) :
    k'.Key n key := by
  induction h with
  | root ht hbase =>
    obtain ⟨t', ht', h⟩ := Multiset.exists_mem_of_rel_of_mem hsame.types ht
    rw [h.kind] at hbase ⊢
    rw [h.name]
    exact .root ht' hbase
  | derived ht hbase rest ih =>
    obtain ⟨t', ht', h⟩ := Multiset.exists_mem_of_rel_of_mem hsame.types ht
    rw [h.kind] at hbase
    rw [h.name]
    exact .derived ht' hbase ih

/-! ## Relationships -/

/-- The foreign key of an association is its only constraint, if it has just one and was declared by
a foreign key. -/
theorem Association.foreignKey?_eq_some_iff {a : Association} {fk : ForeignKey} :
    a.foreignKey? = some fk ↔ a.isForeignKey = true ∧ a.constraints = [fk] := by
  rw [foreignKey?]
  split
  · rename_i hone
    rw [hone, List.cons.injEq, eq_self, and_true]
    cases a.isForeignKey <;> simp
  · rename_i hmany
    exact ⟨nofun, fun h => absurd h.2 (hmany fk)⟩

/-- Associations that say the same have foreign keys that say the same. -/
theorem Association.Same.foreignKey? {a a' : Association} (h : a.Same a') {fk : ForeignKey}
    (hfk : a.foreignKey? = some fk) : ∃ fk', a'.foreignKey? = some fk' ∧ fk.Same fk' := by
  obtain ⟨hflag, hone⟩ := Association.foreignKey?_eq_some_iff.1 hfk
  obtain ⟨m, hm, hp⟩ := rearranged_iff.1 h.constraints
  rw [hone] at hm
  cases hm with
  | cons hsame hrest =>
    cases hrest
    exact ⟨_, foreignKey?_eq_some_iff.2 ⟨h.isForeignKey ▸ hflag, List.perm_singleton.1 hp.symm⟩,
      hsame⟩

/-- One relationship alone has the name; pairs of its constraints that refer to key fields of one
name have sources of one name. -/
structure Distinguishes (k : Content) (name : String) : Prop where
  alone : (k.associations.map Association.name).count name ≤ 1
  sources : ∀ a ∈ k.associations, a.name = name → ∀ fk ∈ a.constraints,
    ∀ p ∈ fk.fields, ∀ q ∈ fk.fields, p.2 = q.2 → p.1.name = q.1.name

instance (k : Content) (name : String) : Decidable (k.Distinguishes name) :=
  decidable_of_iff (_ ∧ _) ⟨fun h => ⟨h.1, h.2⟩, fun h => ⟨h.alone, h.sources⟩⟩

/-- A name that tells one association does so in any content that says the same. -/
theorem Distinguishes.of_same {name : String} (h : k.Distinguishes name) (hsame : k'.Same k) :
    k'.Distinguishes name where
  alone := by
    rw [(hsame.associations.map_perm fun _ _ ha => ha.name).count_eq]
    exact h.alone
  sources := by
    intro a' ha' hname fk' hfk' p hp q hq
    obtain ⟨a, ha, hsame⟩ := Multiset.exists_mem_of_rel_of_mem hsame.associations ha'
    obtain ⟨fk, hfk, hfields⟩ := Multiset.exists_mem_of_rel_of_mem hsame.constraints hfk'
    exact h.sources a ha (hsame.name ▸ hname) fk hfk p (hfields.fields.subset hp) q
      (hfields.fields.subset hq)

/-- Such a name belongs to one association only. -/
theorem Distinguishes.eq {name : String} (h : k.Distinguishes name) {a a' : Association}
    (ha : a ∈ k.associations) (ha' : a' ∈ k.associations) (hn : a.name = name)
    (hn' : a'.name = name) : a = a' :=
  eq_of_count_le_one (List.forall₂_same.2 fun _ _ => rfl) h.alone ha ha' (fun _ h => h ▸ hn)
    fun _ h => h ▸ hn'

/-! ## What an association set encodes -/

/-- What the view of a foreign key is made of. -/
structure Encoded where
  set : AssociationSet
  isAbstract : Bool
  /-- the place of the principal end; the dependent end is the other one -/
  principal : Nat
  principalEnd : AssociationEnd
  dependentEnd : AssociationEnd
  principalSet : String
  dependentSet : String
  /-- the element type of the dependent set -/
  element : String
  ownKey : List FieldName
  /-- the fields with the values of the principal's key, in the order of that key -/
  sources : List String

/-- The place of the dependent end. -/
def Encoded.dependent (e : Encoded) : Nat := 1 - e.principal

/-- A relationship that is encoded by a foreign key, as far as its view depends on it. -/
structure Encoded.Of (k : Content) (e : Encoded) (a : Association) (fk : ForeignKey) : Prop where
  name : a.name = e.set.association
  isAbstract : a.isAbstract = e.isAbstract
  foreignKey : a.foreignKey? = some fk
  place : fk.principal = e.principal
  principal : a.ends.get? e.principal = some e.principalEnd
  dependent : a.ends.get? e.dependent = some e.dependentEnd
  sources : ∃ key, k.Key e.principalEnd.type key ∧ List.Forall₂ (fun target source =>
    ∃ pair ∈ fk.fields, pair.2 = target ∧ pair.1.name = source) key e.sources

/-- What the content says of an association set whose relationship is encoded by a foreign key. -/
structure Encodes (k : Content) (e : Encoded) : Prop where
  set : e.set ∈ k.associationSets
  association : ∃ a ∈ k.associations, ∃ fk, e.Of k a fk
  principalSet : e.set.ends.get? e.principal = some e.principalSet
  dependentSet : e.set.ends.get? e.dependent = some e.dependentSet
  element : ⟨e.dependentSet, e.element⟩ ∈ k.entitySets
  ownKey : k.Key e.dependentEnd.type e.ownKey

/-- Another association set has instances of the same relationship for the same dependent set. -/
def Contested (k : Content) (e : Encoded) : Prop :=
  ∃ other ∈ k.associationSets, other.name ≠ e.set.name ∧
    other.association = e.set.association ∧ other.ends.get? e.dependent = some e.dependentSet

/-- Contents that say the same have the same rivals. -/
theorem Contested.of_same (hsame : k.Same k') {e : Encoded} (h : k.Contested e) :
    k'.Contested e := by
  obtain ⟨other, hother, h⟩ := h
  exact ⟨other, hsame.associationSets.subset hother, h⟩

/-- Contents that say the same tell the same foreign key of a set. -/
theorem Encodes.of_same (hsame : k.Same k') {e : Encoded} (h : k.Encodes e) : k'.Encodes e := by
  obtain ⟨a, ha, fk, hof⟩ := h.association
  obtain ⟨a', ha', hsame'⟩ := Multiset.exists_mem_of_rel_of_mem hsame.associations ha
  obtain ⟨fk', hfk', hfields⟩ := hsame'.foreignKey? hof.foreignKey
  obtain ⟨key, hkey, hsources⟩ := hof.sources
  refine ⟨hsame.associationSets.subset h.set, ⟨a', ha', fk', ?_⟩, h.principalSet, h.dependentSet,
    hsame.entitySets.subset h.element, h.ownKey.of_same hsame⟩
  refine ⟨hsame'.name ▸ hof.name, hsame'.isAbstract ▸ hof.isAbstract, hfk',
    hfields.principal ▸ hof.place, hsame'.ends ▸ hof.principal, hsame'.ends ▸ hof.dependent,
    key, hkey.of_same hsame, hsources.imp ?_⟩
  rintro target source ⟨pair, hpair, htarget, hsource⟩
  exact ⟨pair, hfields.fields.subset hpair, htarget, hsource⟩

/-- What is told of a set by a foreign key is one thing, if the names tell the types and the
association of the set. -/
theorem Encodes.unique (hk : k.NamesApart) {e e' : Encoded}
    (hdistinguishes : k.Distinguishes e.set.association) (h : k.Encodes e) (h' : k.Encodes e')
    (hname : e.set.name = e'.set.name) : e = e' := by
  obtain ⟨a, ha, fk, hof⟩ := h.association
  obtain ⟨a', ha', fk', hof'⟩ := h'.association
  obtain ⟨set, isAbstract, principal, principalEnd, dependentEnd, principalSet, dependentSet,
    element, ownKey, sources⟩ := e
  obtain ⟨set', isAbstract', principal', principalEnd', dependentEnd', principalSet',
    dependentSet', element', ownKey', sources'⟩ := e'
  -- the set goes by its name; all else follows from it, part by part
  obtain rfl : set = set' := hk.associationSets _ h.set _ h'.set hname
  obtain rfl : a = a' := hdistinguishes.eq ha ha' hof.name hof'.name
  obtain rfl : isAbstract = isAbstract' := hof.isAbstract.symm.trans hof'.isAbstract
  obtain rfl : fk = fk' := Option.some.inj (hof.foreignKey.symm.trans hof'.foreignKey)
  obtain rfl : principal = principal' := hof.place.symm.trans hof'.place
  obtain rfl : principalEnd = principalEnd' :=
    Option.some.inj (hof.principal.symm.trans hof'.principal)
  obtain rfl : dependentEnd = dependentEnd' :=
    Option.some.inj (hof.dependent.symm.trans hof'.dependent)
  obtain rfl : principalSet = principalSet' :=
    Option.some.inj (h.principalSet.symm.trans h'.principalSet)
  obtain rfl : dependentSet = dependentSet' :=
    Option.some.inj (h.dependentSet.symm.trans h'.dependentSet)
  obtain rfl : element = element' :=
    congrArg EntitySet.type (hk.entitySets _ h.element _ h'.element rfl)
  obtain rfl : ownKey = ownKey' := h.ownKey.unique hk h'.ownKey
  obtain ⟨key, hkey, hsources⟩ := hof.sources
  obtain ⟨key', hkey', hsources'⟩ := hof'.sources
  obtain rfl : key = key' := hkey.unique hk hkey'
  have hfk : fk ∈ a.constraints :=
    (Association.foreignKey?_eq_some_iff.1 hof.foreignKey).2 ▸ List.mem_singleton_self fk
  -- pairs for one key field name the same source, if the name tells the association
  obtain rfl : sources = sources' := by
    refine Relator.RightUnique.forall₂ (fun target source source' hs hs' => ?_) hsources hsources'
    obtain ⟨p, hp, rfl, rfl⟩ := hs
    obtain ⟨q, hq, htarget, rfl⟩ := hs'
    exact hdistinguishes.sources a ha hof.name fk hfk p hp q hq htarget.symm
  rfl

/-! ## The view of an association set -/

namespace Encoded

/-- A reference to an entity of a set, by the fields that hold its key. -/
def refText (container set : String) (fields : List String) : String :=
  "CreateRef(" ++ s!"{container}.{set}" ++ ", ROW(" ++
    ", ".intercalate (fields.map ("T." ++ ·)) ++ "))"

/-- The reference at an end: the dependent by its own key, the principal by the foreign key. -/
def endText (e : Encoded) (container : String) (place : Nat) : String :=
  if place = e.dependent then refText container e.dependentSet (e.ownKey.map FieldName.name)
  else refText container e.principalSet e.sources

/-- What is asked of a row: that it is of the dependent type, where not every row of the set is, and
that the foreign key is set, where it need not be. -/
def tests (e : Encoded) : List String :=
  (if e.dependentEnd.type ≠ e.element then ["T IS OF (" ++ e.dependentEnd.type ++ ")"] else []) ++
    if e.principalEnd.multiplicity.isOptional then
      e.sources.map fun field => "T." ++ field ++ " IS NOT NULL"
    else []

/-- The text of the view that a foreign key makes of an association set. -/
def text (e : Encoded) (container : String) : String :=
  let ends := ", ".intercalate ((List.range 2).map (e.endText container))
  let scan := "SELECT VALUE " ++ (e.set.association ++ "(" ++ ends ++ ")") ++ " FROM " ++
    s!"{container}.{e.dependentSet}" ++ " AS T"
  if e.tests.isEmpty then scan else scan ++ " WHERE " ++ " AND ".intercalate e.tests

end Encoded

/-- What comes of the view of the association set of a name: nothing if no foreign key encodes its
relationship; otherwise no text, or one. -/
inductive Settles (k : Content) (name : String) : Option (Option String) → Prop
  | none (h : ∀ e, k.Encodes e → e.set.name ≠ name) : Settles k name none
  | refused {e : Encoded} (h : k.Encodes e) (hname : e.set.name = name)
    (hrefused : e.isAbstract = true ∨ k.Contested e) : Settles k name (some none)
  | made {e : Encoded} (h : k.Encodes e) (hname : e.set.name = name)
    (habstract : e.isAbstract = false) (hcontested : ¬ k.Contested e) :
    Settles k name (some (some (e.text k.conceptual)))

/-- Contents that say the same settle it the same way. -/
theorem Settles.of_same (hsame : k.Same k') (hsame' : k'.Same k) {name : String}
    {outcome : Option (Option String)} (h : k.Settles name outcome) : k'.Settles name outcome := by
  cases h with
  | none h => exact .none fun e he => h e (he.of_same hsame')
  | refused h hname hrefused =>
    exact .refused (h.of_same hsame) hname (hrefused.imp_right fun hc => hc.of_same hsame)
  | made h hname habstract hcontested =>
    rw [hsame.conceptual]
    exact .made (h.of_same hsame) hname habstract fun hc => hcontested (hc.of_same hsame')

/-- A content that says what the names stand for settles it in one way. -/
theorem Settles.unique (hk : k.NamesApart) {name : String} {set : AssociationSet}
    (hset : set ∈ k.associationSets) (hname : set.name = name)
    (hdistinguishes : k.Distinguishes set.association) {outcome outcome' : Option (Option String)}
    (h : k.Settles name outcome) (h' : k.Settles name outcome') : outcome = outcome' := by
  -- a name is encoded in one way at most, so that a refusal and a view exclude each other
  have hone {e e' : Encoded} (he : k.Encodes e) (he' : k.Encodes e') (hn : e.set.name = name)
      (hn' : e'.set.name = name) : e = e' := by
    have heq : set = e.set := hk.associationSets _ hset _ he.set (hname.trans hn.symm)
    exact he.unique hk (heq ▸ hdistinguishes) he' (hn.trans hn'.symm)
  have hclash {e e' : Encoded} (he : k.Encodes e) (he' : k.Encodes e') (hn : e.set.name = name)
      (hn' : e'.set.name = name) (hrefused : e.isAbstract = true ∨ k.Contested e)
      (hconcrete : e'.isAbstract = false) : k.Contested e' := by
    cases hone he he' hn hn'
    rcases hrefused with hrefused | hrefused
    · cases hconcrete.symm.trans hrefused
    · exact hrefused
  cases h with
  | none h =>
    cases h' with
    | none => rfl
    | refused he hn | made he hn => exact absurd hn (h _ he)
  | refused he hn hrefused =>
    cases h' with
    | none h' => exact absurd hn (h' _ he)
    | refused => rfl
    | made he' hn' hconcrete hfree => exact absurd (hclash he he' hn hn' hrefused hconcrete) hfree
  | made he hn hconcrete hfree =>
    cases h' with
    | none h' => exact absurd hn (h' _ he)
    | refused he' hn' hrefused => exact absurd (hclash he' he hn' hn hrefused hconcrete) hfree
    | made he' hn' => rw [hone he he' hn hn']

end Content

end QueryViews
