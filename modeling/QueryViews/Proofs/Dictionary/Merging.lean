import QueryViews.Proofs.Dictionary.Adoption

/-!
# Merging artifacts

Artifacts are adopted one after another, each on top of those before it. What they come to together
does not depend on how they were met (`merge_cases`):

* **refused** — one was made from another mapping, or two that can be adopted both have a text for
  some extent, and then the error is a mapping error (`Refused`);
* **merged** — otherwise every text of every artifact that can be adopted is there, and no other
  (`Merged`).

An artifact with an unreadable hash counts for nothing, and neither does one that was made from this
mapping and has a name that no extent of the pair has.
-/

namespace QueryViews

variable {names : OrderedMap String Extent} {live : ClosureHash} {a b : Artifact}

/-! ## What an artifact says -/

namespace Artifact

/-- The hash in the artifact is the text of some hash. -/
def isReadable (a : Artifact) : Bool := (ClosureHash.parse a.hash).isOk

/-- Every name in the artifact is that of an extent. -/
def Familiar (names : OrderedMap String Extent) (a : Artifact) : Prop :=
  ∀ n ∈ a.views.keys, n ∈ names.keys

instance : DecidablePred (Familiar names) :=
  fun a => inferInstanceAs (Decidable (∀ n ∈ a.views.keys, n ∈ names.keys))

/-- The artifact has this text for an extent. -/
def Gives (names : OrderedMap String Extent) (a : Artifact) (e : Extent) (t : String) : Prop :=
  ∃ n, names.get? n = some e ∧ a.views.get? n = some t

/-- Both artifacts have a text for some extent. -/
def Overlaps (names : OrderedMap String Extent) (a b : Artifact) : Prop :=
  ∃ e t t', a.Gives names e t ∧ b.Gives names e t'

/-- Of two artifacts that overlap, each overlaps the other. -/
theorem Overlaps.symm (h : a.Overlaps names b) : b.Overlaps names a := by
  obtain ⟨e, t, t', ha, hb⟩ := h
  exact ⟨e, t', t, hb, ha⟩

theorem isReadable_iff : a.isReadable = true ↔ ∃ h, ClosureHash.parse a.hash = .ok h := by
  rw [isReadable]
  cases ClosureHash.parse a.hash with
  | ok h => exact ⟨fun _ => ⟨h, rfl⟩, fun _ => rfl⟩
  | error e => exact ⟨nofun, fun ⟨h, hh⟩ => nomatch hh⟩

end Artifact

/-! ## One artifact -/

/-- What is there after an artifact, found in some assembly, was met: the views that were there, and
those that the artifact adds. -/
def mergeOne (names : OrderedMap String Extent) (live : ClosureHash)
    (views : OrderedMap Extent View) (found : String × Artifact) :
    Except Error (OrderedMap Extent View) :=
  match ClosureHash.parse found.2.hash with
  | .error _ => .ok views
  | .ok expected =>
    if expected ≠ live then .error (Dictionary.staleArtifact found.2 found.1 expected live)
    else
      match Dictionary.namedTexts names found.2 with
      | none => .ok views
      | some texts => Dictionary.addTexts views texts

/-- What is there after several artifacts were met. -/
def merge (names : OrderedMap String Extent) (live : ClosureHash)
    (found : List (String × Artifact)) : Except Error (OrderedMap Extent View) :=
  found.foldlM (mergeOne names live) .empty

section One

variable {views : OrderedMap Extent View} {assembly : String} {e : Error}

/-- An artifact with an unreadable hash is passed over. -/
theorem mergeOne_of_unreadable (h : ClosureHash.parse a.hash = .error e) :
    mergeOne names live views (assembly, a) = .ok views := by
  simp only [mergeOne, h]

/-- An artifact of another mapping is refused. -/
theorem mergeOne_of_stale (names : OrderedMap String Extent) (views : OrderedMap Extent View)
    (assembly : String) {h : ClosureHash} (hparse : ClosureHash.parse a.hash = .ok h)
    (hne : h ≠ live) : ∃ e, mergeOne names live views (assembly, a) = .error e ∧ e.isMapping := by
  simp only [mergeOne, hparse, if_pos hne]
  exact ⟨_, rfl, rfl⟩

/-- An artifact of this mapping adds its texts, if all its names are known. -/
theorem mergeOne_of_live (hparse : ClosureHash.parse a.hash = .ok live) :
    mergeOne names live views (assembly, a) =
      match Dictionary.namedTexts names a with
      | none => .ok views
      | some texts => Dictionary.addTexts views texts := by
  simp only [mergeOne, hparse, ne_eq, not_true_eq_false, if_false]

theorem namedTexts_of_not_familiar (h : ¬ a.Familiar names) :
    Dictionary.namedTexts names a = none := by
  refine Option.eq_none_iff_forall_ne_some.2 fun texts htexts => h fun n hn => ?_
  obtain ⟨p, hp, rfl⟩ := List.mem_map.1 hn
  obtain ⟨i, hi, rfl⟩ := List.getElem_of_mem hp
  have hall := List.forall₂_iff_get.1 (Dictionary.namedTexts_eq_some_iff.1 htexts)
  obtain ⟨hget, -⟩ := hall.2 i hi (hall.1 ▸ hi)
  exact OrderedMap.exists_get?_iff.1 ⟨_, hget⟩

/-- The texts of an artifact all of whose names are known, each with the extent of its name; no
extent is there twice. -/
theorem exists_texts
    (hinjective : ∀ n n' e, names.get? n = some e → names.get? n' = some e → n = n')
    (h : a.Familiar names) :
    ∃ texts, Dictionary.namedTexts names a = some texts ∧ (texts.map Prod.fst).Nodup ∧
      ∀ e t, a.Gives names e t ↔ ∃ n, (e, n, t) ∈ texts := by
  obtain ⟨texts, htexts, hentries, hnames⟩ :=
    Dictionary.exists_namedTexts fun n hn => OrderedMap.exists_get?_iff.2 (h n hn)
  -- an artifact has no name twice, and no two names are of one extent
  have hkeys : (texts.map fun q => q.2.1).Nodup := by
    have hnodup := a.views.nodup_keys
    rwa [← hentries, List.map_map] at hnodup
  refine ⟨texts, htexts, hkeys.of_map.map_on fun q hq q' hq' heq => ?_, fun e t => ⟨?_, ?_⟩⟩
  · exact List.inj_on_of_nodup_map hkeys hq hq'
      (hinjective _ _ _ (hnames q hq) (heq ▸ hnames q' hq'))
  · rintro ⟨n, hn, ht⟩
    have hmem := OrderedMap.get?_eq_some_iff.1 ht
    rw [← hentries] at hmem
    obtain ⟨⟨e', n', t'⟩, hq, heq⟩ := List.mem_map.1 hmem
    cases heq
    have he' := hnames _ hq
    rw [hn] at he'
    cases he'
    exact ⟨_, hq⟩
  · rintro ⟨n, hq⟩
    refine ⟨n, hnames _ hq, OrderedMap.get?_eq_some_iff.2 ?_⟩
    rw [← hentries]
    exact List.mem_map_of_mem (f := Prod.snd) hq

/-- A text for an extent that has one already is refused. -/
theorem exists_addTexts_eq_error {texts : List (Extent × String × String)}
    (views : OrderedMap Extent View) (h : ∃ q ∈ texts, q.1 ∈ views.keys) :
    ∃ e, Dictionary.addTexts views texts = .error e ∧ e.isMapping := by
  induction texts generalizing views with
  | nil =>
    obtain ⟨q, hq, -⟩ := h
    cases hq
  | cons q texts ih =>
    obtain ⟨e, name, text⟩ := q
    rw [Dictionary.addTexts, List.foldlM_cons]
    simp only
    by_cases he : views.contains e = true
    · rw [if_pos he]
      exact ⟨_, rfl, rfl⟩
    · rw [if_neg he]
      -- the extent that has a text keeps it when another one gets its own
      refine ih (views.insert e (.ofText (.extent e) text .preGenerated)) ?_
      obtain ⟨q, hq, hmem⟩ := h
      have hne : q ≠ (e, name, text) := by
        rintro rfl
        exact he (OrderedMap.contains_iff.2 hmem)
      refine ⟨q, (List.mem_cons.1 hq).resolve_left hne, ?_⟩
      rw [OrderedMap.keys, OrderedMap.entries_insert fun h => he (OrderedMap.contains_iff.2 h),
        List.map_append]
      exact List.mem_append_left _ hmem

end One

/-! ## All artifacts -/

/-- One of the artifacts was made from another mapping, or two of those with known names only have a
text for one extent. -/
def Refused (names : OrderedMap String Extent) (live : ClosureHash) (artifacts : List Artifact) :
    Prop :=
  (∃ a ∈ artifacts, ClosureHash.parse a.hash ≠ .ok live) ∨
    ¬ (artifacts.filter (Artifact.Familiar names)).Pairwise fun a b => ¬ a.Overlaps names b

/-- The views are the texts of those artifacts whose names are all known, under the extents of their
names. -/
def Merged (names : OrderedMap String Extent) (artifacts : List Artifact)
    (views : OrderedMap Extent View) : Prop :=
  ∀ e v, views.get? e = some v ↔ ∃ a ∈ artifacts, a.Familiar names ∧
    ∃ t, a.Gives names e t ∧ v = .ofText (.extent e) t .preGenerated

/-- What was refused is so whatever else is found. -/
theorem Refused.append {artifacts : List Artifact} (h : Refused names live artifacts)
    (others : List Artifact) : Refused names live (artifacts ++ others) := by
  rcases h with ⟨a, ha, hne⟩ | h
  · exact .inl ⟨a, List.mem_append_left _ ha, hne⟩
  · refine .inr fun hp => h ?_
    rw [List.filter_append] at hp
    exact (List.pairwise_append.1 hp).1

section All

variable {artifacts : List Artifact} {views : OrderedMap Extent View}

/-- An artifact with unknown names adds nothing. -/
theorem Merged.pass (hm : Merged names artifacts views) (hr : ¬ Refused names live artifacts)
    (hparse : ClosureHash.parse a.hash = .ok live) (ha : ¬ a.Familiar names) :
    ¬ Refused names live (artifacts ++ [a]) ∧ Merged names (artifacts ++ [a]) views := by
  refine ⟨fun h => hr ?_, fun e v => (hm e v).trans ?_⟩
  · have hfilter : (artifacts ++ [a]).filter (Artifact.Familiar names) =
        artifacts.filter (Artifact.Familiar names) := by
      rw [List.filter_append, List.filter_singleton, decide_eq_false ha]
      exact List.append_nil _
    rcases h with ⟨b, hb, hne⟩ | h
    · rcases List.mem_append.1 hb with hb | hb
      · exact .inl ⟨b, hb, hne⟩
      · obtain rfl := List.mem_singleton.1 hb
        exact absurd hparse hne
    · exact .inr (hfilter ▸ h)
  · refine exists_congr fun b => ?_
    rw [List.mem_append, List.mem_singleton]
    refine ⟨fun ⟨hb, h⟩ => ⟨.inl hb, h⟩, fun ⟨hb, h⟩ => ⟨hb.resolve_right ?_, h⟩⟩
    rintro rfl
    exact ha h.1

/-- An artifact whose extents have no text yet adds all of its texts. -/
theorem Merged.add (hm : Merged names artifacts views) (hr : ¬ Refused names live artifacts)
    (hparse : ClosureHash.parse a.hash = .ok live) (ha : a.Familiar names)
    (hnew : ∀ e t, a.Gives names e t → e ∉ views.keys) {added : OrderedMap Extent View}
    (hadded : ∀ e v, added.get? e = some v ↔ views.get? e = some v ∨
      ∃ t, a.Gives names e t ∧ v = .ofText (.extent e) t .preGenerated) :
    ¬ Refused names live (artifacts ++ [a]) ∧ Merged names (artifacts ++ [a]) added := by
  refine ⟨fun h => ?_, fun e v => (hadded e v).trans ?_⟩
  · rcases h with ⟨b, hb, hne⟩ | h
    · rcases List.mem_append.1 hb with hb | hb
      · exact hr (.inl ⟨b, hb, hne⟩)
      · obtain rfl := List.mem_singleton.1 hb
        exact hne hparse
    · refine h ?_
      rw [List.filter_append, List.pairwise_append]
      refine ⟨not_not.1 fun h => hr (.inr h), ?_, fun b hb c hc => ?_⟩
      · exact (List.pairwise_singleton _ a).filter _
      · -- a common extent would have a text already
        obtain ⟨hb, hfamiliar⟩ := List.mem_filter.1 hb
        obtain rfl := List.mem_singleton.1 (List.mem_of_mem_filter hc)
        rintro ⟨e, t, t', hgives, hgives'⟩
        exact hnew e t' hgives' (OrderedMap.exists_get?_iff.1
          ⟨_, (hm e _).2 ⟨b, hb, of_decide_eq_true hfamiliar, t, hgives, rfl⟩⟩)
  · rw [hm e v]
    constructor
    · rintro (⟨b, hb, h⟩ | h)
      · exact ⟨b, List.mem_append_left _ hb, h⟩
      · exact ⟨a, List.mem_append_right _ (List.mem_singleton_self a), ha, h⟩
    · rintro ⟨b, hb, h⟩
      rcases List.mem_append.1 hb with hb | hb
      · exact .inl ⟨b, hb, h⟩
      · obtain rfl := List.mem_singleton.1 hb
        exact .inr h.2

/-- One artifact more, that was made from this mapping. -/
theorem Merged.mergeOne (hinjective : ∀ n n' e, names.get? n = some e → names.get? n' = some e →
      n = n') (hm : Merged names artifacts views) (hr : ¬ Refused names live artifacts)
    (assembly : String) (hparse : ClosureHash.parse a.hash = .ok live) :
    (∃ added, mergeOne names live views (assembly, a) = .ok added ∧
        ¬ Refused names live (artifacts ++ [a]) ∧ Merged names (artifacts ++ [a]) added) ∨
      ∃ e, mergeOne names live views (assembly, a) = .error e ∧ e.isMapping ∧
        Refused names live (artifacts ++ [a]) := by
  rw [mergeOne_of_live hparse]
  by_cases ha : a.Familiar names
  · obtain ⟨texts, htexts, hnodup, hgives⟩ := exists_texts hinjective ha
    rw [htexts]
    -- a text for an extent that has one already overlaps the artifact that one came from
    by_cases hclash : ∃ q ∈ texts, q.1 ∈ views.keys
    · obtain ⟨error, herror, hmapping⟩ := exists_addTexts_eq_error views hclash
      refine .inr ⟨error, herror, hmapping, .inr fun hp => ?_⟩
      obtain ⟨⟨e, n, t⟩, hq, hmem⟩ := hclash
      obtain ⟨v, hv⟩ := OrderedMap.exists_get?_iff.2 hmem
      obtain ⟨b, hb, hfamiliar, t', hgives', -⟩ := (hm e v).1 hv
      rw [List.filter_append, List.pairwise_append] at hp
      exact hp.2.2 b (List.mem_filter.2 ⟨hb, decide_eq_true hfamiliar⟩) a
        (List.mem_filter.2 ⟨List.mem_singleton_self a, decide_eq_true ha⟩)
        ⟨e, t', t, hgives', (hgives e t).2 ⟨n, hq⟩⟩
    · have hnew : ∀ q ∈ texts, q.1 ∉ views.keys := fun q hq hmem => hclash ⟨q, hq, hmem⟩
      obtain ⟨added, hadded, hentries⟩ := Dictionary.exists_addTexts hnodup views hnew
      refine .inl ⟨added, hadded, hm.add hr hparse ha (fun e t h => ?_) fun e v => ?_⟩
      · obtain ⟨n, hq⟩ := (hgives e t).1 h
        exact hnew _ hq
      · rw [OrderedMap.get?_eq_some_iff, OrderedMap.get?_eq_some_iff, hentries, List.mem_append]
        refine or_congr_right ?_
        rw [List.mem_map]
        constructor
        · rintro ⟨⟨e', n, t⟩, hq, heq⟩
          cases heq
          exact ⟨t, (hgives e' t).2 ⟨n, hq⟩, rfl⟩
        · rintro ⟨t, h, rfl⟩
          obtain ⟨n, hq⟩ := (hgives e t).1 h
          exact ⟨(e, n, t), hq, rfl⟩
  · rw [namedTexts_of_not_familiar ha]
    exact .inl ⟨views, rfl, hm.pass hr hparse ha⟩

end All

/-- Artifacts are refused with a mapping error, or merged. Which of the two, and what they are
merged to, does not depend on the assemblies in which they were found. -/
theorem merge_cases
    (hinjective : ∀ n n' e, names.get? n = some e → names.get? n' = some e → n = n')
    (found : List (String × Artifact)) :
    let artifacts := (found.map Prod.snd).filter Artifact.isReadable
    (∃ views, merge names live found = .ok views ∧ ¬ Refused names live artifacts ∧
        Merged names artifacts views) ∨
      ∃ e, merge names live found = .error e ∧ e.isMapping ∧ Refused names live artifacts := by
  -- from the left, so that what is there already is what the artifacts before come to
  induction found using List.reverseRecOn with
  | nil =>
    refine .inl ⟨.empty, rfl, fun h => ?_, fun e v => ⟨nofun, fun ⟨a, ha, _⟩ => nomatch ha⟩⟩
    rcases h with ⟨a, ha, -⟩ | h
    · cases ha
    · exact h .nil
  | append_singleton found p ih =>
    obtain ⟨assembly, a⟩ := p
    have hmerge : merge names live (found ++ [(assembly, a)]) =
        merge names live found >>= fun views => mergeOne names live views (assembly, a) := by
      rw [merge, merge, List.foldlM_append]
      exact bind_congr fun views => bind_pure (mergeOne names live views (assembly, a))
    simp only [List.map_append, List.filter_append, List.map_singleton,
      List.filter_singleton] at ih ⊢
    rw [hmerge]
    rcases ih with ⟨views, hviews, hr, hm⟩ | ⟨e, herror, hmapping, hr⟩
    · rw [hviews]
      change (∃ added, mergeOne names live views (assembly, a) = .ok added ∧ _) ∨
        ∃ e, mergeOne names live views (assembly, a) = .error e ∧ _
      cases hparse : ClosureHash.parse a.hash with
      | error e =>
        have hunreadable : a.isReadable = false := by
          rw [Artifact.isReadable, hparse]
          rfl
        rw [mergeOne_of_unreadable hparse, hunreadable, cond_false, List.append_nil]
        exact .inl ⟨views, rfl, hr, hm⟩
      | ok h =>
        have hreadable : a.isReadable = true := Artifact.isReadable_iff.2 ⟨h, hparse⟩
        rw [hreadable, cond_true]
        by_cases hne : h = live
        · subst hne
          exact hm.mergeOne hinjective hr assembly hparse
        · obtain ⟨e, herror, hmapping⟩ :=
            mergeOne_of_stale names views assembly hparse hne
          refine .inr ⟨e, herror, hmapping, .inl ⟨a, ?_, ?_⟩⟩
          · exact List.mem_append_right _ (List.mem_singleton_self a)
          · rw [hparse]
            exact fun h => hne (Except.ok.inj h)
    · rw [herror]
      exact .inr ⟨e, rfl, hmapping, hr.append _⟩

/-! ## What does not matter -/

section Order

variable {l l' : List Artifact}

/-- The order of artifacts does not matter. -/
theorem Refused.of_perm (hp : l.Perm l') (h : Refused names live l) : Refused names live l' := by
  rcases h with ⟨a, ha, hne⟩ | h
  · exact .inl ⟨a, hp.mem_iff.1 ha, hne⟩
  · refine .inr fun hp' => h ?_
    exact ((hp.filter _).pairwise_iff fun h h' => h (Artifact.Overlaps.symm h')).2 hp'

/-- The order in which artifacts are found does not matter to whether they are refused. -/
theorem refused_iff_of_perm (hp : l.Perm l') : Refused names live l ↔ Refused names live l' :=
  ⟨.of_perm hp, .of_perm hp.symm⟩

/-- The order in which artifacts are found does not matter to the views. -/
theorem merged_iff_of_perm (hp : l.Perm l') {views : OrderedMap Extent View} :
    Merged names l views ↔ Merged names l' views := by
  simp only [Merged, hp.mem_iff]

/-- An artifact that was made from this mapping and has an unknown name does not matter. -/
theorem refused_cons_iff (hparse : ClosureHash.parse a.hash = .ok live) (ha : ¬ a.Familiar names) :
    Refused names live (a :: l) ↔ Refused names live l := by
  rw [Refused, Refused, List.filter_cons_of_neg (by simpa using ha), List.exists_mem_cons_iff]
  simp only [hparse, ne_eq, not_true_eq_false, false_or]

/-- An artifact with an unknown name adds nothing. -/
theorem merged_cons_iff (ha : ¬ a.Familiar names) {views : OrderedMap Extent View} :
    Merged names (a :: l) views ↔ Merged names l views := by
  simp only [Merged, List.exists_mem_cons_iff, ha, false_and, false_or]

end Order

end QueryViews
