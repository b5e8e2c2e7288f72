import QueryViews.Proofs.Dictionary.Reference
import QueryViews.Proofs.OrderedMap
import QueryViews.Proofs.Outcome

/-!
# Adopting an artifact whole

An artifact is adopted whole when it was made for the pair, with the hash of the pair, and names
only extents of the pair (`Reference.exists_lookup`). Nothing else has to be searched for that, and
nothing has to be generated: it is enough that no other artifact is seen.

Names are looked up in a map in which no extent stands under two names, so no two names of the
artifact meet in one extent, and each text goes to the extent of its name.
-/

namespace QueryViews

variable {α : Type} {names : OrderedMap String Extent} {a : Artifact}

/-! ## Texts by extent -/

namespace Dictionary

/-- The texts of an artifact get extents if every name in it is known. -/
theorem namedTexts_eq_some_iff {texts : List (Extent × String × String)} :
    namedTexts names a = some texts ↔
      List.Forall₂ (fun p q => names.get? p.1 = some q.1 ∧ q.2 = p) a.views.entries texts := by
  rw [namedTexts, mapM_eq_some_iff]
  have hone (p : String × String) (q : Extent × String × String) :
      (names.get? p.1).map (fun e => (e, p)) = some q ↔ names.get? p.1 = some q.1 ∧ q.2 = p := by
    rw [Option.map_eq_some_iff]
    constructor
    · rintro ⟨e, he, rfl⟩
      exact ⟨he, rfl⟩
    · rintro ⟨he, rfl⟩
      exact ⟨q.1, he, rfl⟩
  exact ⟨fun h => h.imp fun p q => (hone p q).1, fun h => h.imp fun p q => (hone p q).2⟩

/-- The extent of every name is found, and its text goes with it. -/
theorem exists_namedTexts (hknown : ∀ n ∈ a.views.keys, ∃ e, names.get? n = some e) :
    ∃ texts, namedTexts names a = some texts ∧ texts.map Prod.snd = a.views.entries ∧
      ∀ q ∈ texts, names.get? q.2.1 = some q.1 := by
  have hall : ∀ l : List (String × String), (∀ p ∈ l, ∃ e, names.get? p.1 = some e) →
      ∃ texts, List.Forall₂ (fun p q => names.get? p.1 = some q.1 ∧ q.2 = p) l texts ∧
        texts.map Prod.snd = l ∧ ∀ q ∈ texts, names.get? q.2.1 = some q.1 := by
    intro l
    induction l with
    | nil => exact fun _ => ⟨[], .nil, rfl, List.forall_mem_nil _⟩
    | cons p l ih =>
      intro h
      obtain ⟨e, he⟩ := h _ List.mem_cons_self
      obtain ⟨texts, htexts, hentries, hnames⟩ := ih fun p hp => h p (List.mem_cons_of_mem _ hp)
      refine ⟨(e, p) :: texts, .cons ⟨he, rfl⟩ htexts, ?_, List.forall_mem_cons.2 ⟨he, hnames⟩⟩
      rw [List.map_cons, hentries]
  obtain ⟨texts, htexts, hrest⟩ := hall _ fun p hp => hknown p.1 (List.mem_map_of_mem hp)
  exact ⟨texts, namedTexts_eq_some_iff.2 htexts, hrest⟩

/-- If the extent of some name is not found, there are no texts. -/
theorem namedTexts_eq_none (h : ¬ ∀ n ∈ a.views.keys, ∃ e, names.get? n = some e) :
    namedTexts names a = none := by
  cases htexts : namedTexts names a with
  | none => rfl
  | some texts =>
    refine absurd (fun n hn => ?_) h
    obtain ⟨p, hp, rfl⟩ := List.mem_map.1 hn
    obtain ⟨q, -, hq, -⟩ := exists_mem_of_forall₂ (namedTexts_eq_some_iff.1 htexts) hp
    exact ⟨q.1, hq⟩

/-- Texts of new extents, no two of one extent, are all added. -/
theorem exists_addTexts {texts : List (Extent × String × String)}
    (hnodup : (texts.map Prod.fst).Nodup) (views : OrderedMap Extent View)
    (hnew : ∀ q ∈ texts, q.1 ∉ views.keys) :
    ∃ added, addTexts views texts = .ok added ∧ added.entries = views.entries ++
      texts.map fun q => (q.1, .ofText (.extent q.1) q.2.2 .preGenerated) := by
  induction texts generalizing views with
  | nil => exact ⟨views, rfl, (List.append_nil _).symm⟩
  | cons q texts ih =>
    obtain ⟨e, name, text⟩ := q
    rw [List.map_cons, List.nodup_cons] at hnodup
    have he : e ∉ views.keys := hnew _ List.mem_cons_self
    have hentries := OrderedMap.entries_insert he (View.ofText (.extent e) text .preGenerated)
    -- the rest is new to the views with the first text in them too
    obtain ⟨added, hadded, hall⟩ := ih hnodup.2
      (views.insert e (.ofText (.extent e) text .preGenerated)) fun q hq hmem => by
        rw [OrderedMap.keys, hentries, List.map_append, List.mem_append] at hmem
        rcases hmem with hmem | hmem
        · exact hnew q (List.mem_cons_of_mem _ hq) hmem
        · exact hnodup.1 (List.mem_map.2 ⟨q, hq, List.mem_singleton.1 hmem⟩)
    refine ⟨added, ?_, ?_⟩
    · have hcontains : ¬ views.contains e = true := fun h => he (OrderedMap.contains_iff.1 h)
      rw [addTexts, List.foldlM_cons]
      simp only
      rw [if_neg hcontains]
      exact hadded
    · rw [hall, hentries, List.append_assoc]
      rfl

/-- The texts of an artifact, as views of the extents of their names. -/
theorem exists_adopted (hknown : ∀ n ∈ a.views.keys, ∃ e, names.get? n = some e)
    (hinjective : ∀ n n' e, names.get? n = some e → names.get? n' = some e → n = n') :
    ∃ texts views, namedTexts names a = some texts ∧ addTexts .empty texts = .ok views ∧
      views.size = a.views.size ∧ ∀ n e, names.get? n = some e →
        views.get? e = (a.views.get? n).map fun t => .ofText (.extent e) t .preGenerated := by
  obtain ⟨texts, htexts, hentries, hnames⟩ := exists_namedTexts hknown
  have hkeys : (texts.map fun q => q.2.1).Nodup := by
    have hnodup := a.views.nodup_keys
    rwa [← hentries, List.map_map] at hnodup
  have hnodup : (texts.map Prod.fst).Nodup := by
    refine hkeys.of_map.map_on fun q hq q' hq' heq => ?_
    -- two texts of one extent would stand under one name
    have hname : q.2.1 = q'.2.1 := hinjective _ _ _ (hnames q hq) (heq ▸ hnames q' hq')
    exact List.inj_on_of_nodup_map hkeys hq hq' hname
  obtain ⟨views, hviews, hadded⟩ := exists_addTexts hnodup .empty fun _ _ => List.not_mem_nil
  refine ⟨texts, views, htexts, hviews, ?_, fun n e hn => ?_⟩
  · rw [OrderedMap.size, OrderedMap.size, hadded, ← hentries, List.length_append, List.length_map,
      List.length_map]
    exact Nat.zero_add _
  · have hmem : ∀ t, (n, t) ∈ a.views.entries → (e, n, t) ∈ texts := by
      intro t ht
      rw [← hentries] at ht
      obtain ⟨⟨e', n', t'⟩, hq, heq⟩ := List.mem_map.1 ht
      cases heq
      have he := hnames _ hq
      rw [hn] at he
      cases he
      exact hq
    cases ht : a.views.get? n with
    | some t =>
      refine OrderedMap.get?_eq_some_iff.2 ?_
      rw [hadded]
      exact List.mem_append_right _ (List.mem_map_of_mem
        (f := fun q : Extent × String × String =>
          (q.1, View.ofText (.extent q.1) q.2.2 .preGenerated))
        (hmem t (OrderedMap.get?_eq_some_iff.1 ht)))
    | none =>
      cases hv : views.get? e with
      | none => rfl
      | some v =>
        have hentry := OrderedMap.get?_eq_some_iff.1 hv
        rw [hadded] at hentry
        rcases List.mem_append.1 hentry with hentry | hentry
        · cases hentry
        · obtain ⟨⟨e', n', t⟩, hq, heq⟩ := List.mem_map.1 hentry
          cases heq
          obtain rfl : n' = n := hinjective _ _ _ (hnames _ hq) hn
          have htext : (n', t) ∈ a.views.entries := by
            rw [← hentries]
            exact List.mem_map_of_mem (f := Prod.snd) hq
          rw [OrderedMap.get?_eq_some_iff.2 htext] at ht
          cases ht

end Dictionary

/-! ## The search -/

namespace Reference

variable {ref : Reference α} {id : ContainerId} {pair : String}

/-- The artifacts of an assembly, none if it cannot be loaded. -/
def readable (ref : Reference α) (assembly : α) : List Artifact :=
  (ref.artifacts assembly).toOption.getD []

/-- What is adopted from an assembly is adopted from the artifacts that can be read in it. -/
theorem adoptAssembly_of_readable {assembly : α} {views : OrderedMap Extent View} :
    ref.adoptAssembly id pair views assembly =
      ((ref.readable assembly).filter (·.pair = pair)).foldlM
        (ref.adopt id (ref.name assembly)) views := by
  rw [adoptAssembly, readable]
  cases ref.artifacts assembly <;> rfl

/-- If no artifact that is seen was made for the pair, the search adopts nothing. -/
theorem foldlM_adoptAssembly_of_nil {assemblies : List α}
    (h : (assemblies.flatMap ref.readable).filter (·.pair = pair) = [])
    (views : OrderedMap Extent View) :
    assemblies.foldlM (ref.adoptAssembly id pair) views = .ok views := by
  induction assemblies with
  | nil => rfl
  | cons assembly assemblies ih =>
    rw [List.flatMap_cons, List.filter_append, List.append_eq_nil_iff] at h
    rw [List.foldlM_cons, adoptAssembly_of_readable, h.1]
    exact ih h.2

/-- If a single artifact that is seen was made for the pair, the search adopts that one. -/
theorem foldlM_adoptAssembly_of_singleton {assemblies : List α}
    (h : (assemblies.flatMap ref.readable).filter (·.pair = pair) = [a])
    {views : OrderedMap Extent View} (hadopt : ∀ name, ref.adopt id name .empty a = .ok views) :
    assemblies.foldlM (ref.adoptAssembly id pair) .empty = .ok views := by
  induction assemblies with
  | nil => cases h
  | cons assembly assemblies ih =>
    rw [List.flatMap_cons, List.filter_append, List.append_eq_singleton_iff] at h
    rw [List.foldlM_cons, adoptAssembly_of_readable]
    -- the one artifact is in a later assembly, or in this one and nothing is in those after it
    rcases h with ⟨hnone, hrest⟩ | ⟨hone, hrest⟩
    · rw [hnone]
      exact ih hrest
    · rw [hone, List.foldlM_cons, hadopt]
      exact foldlM_adoptAssembly_of_nil hrest views

/-- What becomes of an artifact that has the hash of the pair. -/
theorem adopt_of_hash {h : ClosureHash} (hhash : ClosureHash.parse a.hash = .ok h)
    (hlive : ClosureHash.compute ref.schema id = .ok (some h))
    (hnames : ref.schema.extentsByName id = .ok names) (assembly : String)
    (views : OrderedMap Extent View) : ref.adopt id assembly views a =
      match Dictionary.namedTexts names a with
      | none => .ok views
      | some texts => reported (Dictionary.addTexts views texts) := by
  rw [adopt, hhash]
  simp only
  rw [hlive, hnames]
  change (if h ≠ h then _ else _) = _
  rw [if_neg (not_not_intro rfl)]
  rfl

/-- If a single artifact is for the pair, and was made with its hash, the search ends well. It
adopts the artifact whole if that names only extents of the pair. -/
theorem exists_lookup {h : ClosureHash}
    (honly : (ref.assemblies.flatMap ref.readable).filter (·.pair = a.pair) = [a])
    (hpair : ref.schema.pairName id = .ok a.pair) (hhash : ClosureHash.parse a.hash = .ok h)
    (hlive : ClosureHash.compute ref.schema id = .ok (some h))
    (hnames : ref.schema.extentsByName id = .ok names)
    (hinjective : ∀ n n' e, names.get? n = some e → names.get? n' = some e → n = n') :
    ∃ views, ref.lookup id = .ok views ∧
      ((∀ n ∈ a.views.keys, ∃ e, names.get? n = some e) → views.size = a.views.size ∧
        ∀ n e, names.get? n = some e →
          views.get? e = (a.views.get? n).map fun t => .ofText (.extent e) t .preGenerated) := by
  have hlookup (views : OrderedMap Extent View)
      (hadopt : ∀ name, ref.adopt id name .empty a = .ok views) : ref.lookup id = .ok views := by
    rw [lookup, hpair]
    exact foldlM_adoptAssembly_of_singleton honly hadopt
  by_cases hknown : ∀ n ∈ a.views.keys, ∃ e, names.get? n = some e
  · obtain ⟨texts, views, htexts, hviews, hadopted⟩ :=
      Dictionary.exists_adopted hknown hinjective
    refine ⟨views, hlookup views fun name => ?_, fun _ => hadopted⟩
    rw [adopt_of_hash hhash hlive hnames, htexts]
    simp only
    rw [hviews]
    rfl
  -- an artifact with an unknown name is passed over
  · refine ⟨.empty, hlookup .empty fun name => ?_, fun h => absurd h hknown⟩
    rw [adopt_of_hash hhash hlive hnames, Dictionary.namedTexts_eq_none hknown]

/-- If no artifact is for the pair, the search finds nothing. -/
theorem lookup_of_none (hpair : ref.schema.pairName id = .ok pair)
    (hnone : (ref.assemblies.flatMap ref.readable).filter (·.pair = pair) = []) :
    ref.lookup id = .ok .empty := by
  rw [lookup, hpair]
  exact foldlM_adoptAssembly_of_nil hnone .empty

end Reference

end QueryViews
