import QueryViews.Closure.Reach
import QueryViews.Proofs.Outcome

/-!
# What a walk sees

The walk through the references of a schema sees exactly what is **reached** from where it starts:
its starting points and, from each element reached, all that the element refers to. It sees each
element once, and it fails only if something that is reached is not declared.

The invariant of the walk (`Walk`) says what is known of the two lists it keeps. Passing over an
element seen before, and seeing a new one, both keep it; when nothing is left to visit it says what
was to be shown.
-/

namespace QueryViews

namespace Conceptual

/-- The starting points, and all that something reached refers to. -/
inductive Reached (c : Conceptual) (roots : List Element) : Element → Prop
  | root {e : Element} : e ∈ roots → Reached c roots e
  | step {e e' : Element} {next : List Element} :
    Reached c roots e → c.refersTo e = .ok next → e' ∈ next → Reached c roots e'

/-- What is known half-way through a walk from `roots`. -/
structure Walk (c : Conceptual) (roots todo seen : List Element) : Prop where
  nodup_seen : seen.Nodup
  reached_todo : ∀ e ∈ todo, c.Reached roots e
  reached_seen : ∀ e ∈ seen, c.Reached roots e
  roots_covered : ∀ e ∈ roots, e ∈ seen ∨ e ∈ todo
  seen_covered : ∀ e ∈ seen, ∃ next, c.refersTo e = .ok next ∧ ∀ e' ∈ next, e' ∈ seen ∨ e' ∈ todo

variable {c : Conceptual} {roots todo seen l : List Element}

/-- The walk begins with its roots, and has met nothing yet. -/
theorem Walk.start (c : Conceptual) (roots : List Element) : c.Walk roots roots [] :=
  ⟨.nil, fun _ he => .root he, nofun, fun _ he => .inr he, nofun⟩

/-- Passing over an element that was seen before. -/
theorem Walk.skip {e : Element} (w : c.Walk roots (e :: todo) seen) (he : e ∈ seen) :
    c.Walk roots todo seen := by
  have move : ∀ x, x ∈ seen ∨ x ∈ e :: todo → x ∈ seen ∨ x ∈ todo := by
    rintro x (hx | hx)
    · exact .inl hx
    · rcases List.mem_cons.1 hx with rfl | hx
      · exact .inl he
      · exact .inr hx
  refine ⟨w.nodup_seen, fun x hx => w.reached_todo x (by simp [hx]), w.reached_seen,
    fun x hx => move x (w.roots_covered x hx), fun x hx => ?_⟩
  obtain ⟨next, hnext, hcov⟩ := w.seen_covered x hx
  exact ⟨next, hnext, fun y hy => move y (hcov y hy)⟩

/-- Seeing an element for the first time: what it refers to is still to be visited. -/
theorem Walk.see {e : Element} {next : List Element} (w : c.Walk roots (e :: todo) seen)
    (he : e ∉ seen) (hnext : c.refersTo e = .ok next) :
    c.Walk roots (next ++ todo) (e :: seen) := by
  have hreached : c.Reached roots e := w.reached_todo e (by simp)
  -- nothing that was seen or waits to be visited is lost
  have move : ∀ x, x ∈ seen ∨ x ∈ e :: todo → x ∈ e :: seen ∨ x ∈ next ++ todo := by
    rintro x (hx | hx)
    · exact .inl (by simp [hx])
    · rcases List.mem_cons.1 hx with rfl | hx
      · exact .inl (by simp)
      · exact .inr (by simp [hx])
  refine ⟨List.nodup_cons.2 ⟨he, w.nodup_seen⟩, fun x hx => ?_, fun x hx => ?_,
    fun x hx => move x (w.roots_covered x hx), fun x hx => ?_⟩
  · rcases List.mem_append.1 hx with hx | hx
    · exact .step hreached hnext hx
    · exact w.reached_todo x (by simp [hx])
  · rcases List.mem_cons.1 hx with rfl | hx
    · exact hreached
    · exact w.reached_seen x hx
  · rcases List.mem_cons.1 hx with rfl | hx
    · exact ⟨next, hnext, fun y hy => .inr (by simp [hy])⟩
    · obtain ⟨others, hothers, hcov⟩ := w.seen_covered x hx
      exact ⟨others, hothers, fun y hy => move y (hcov y hy)⟩

/-- A walk with nothing left to visit saw exactly what is reached. -/
theorem Walk.mem_seen_iff (w : c.Walk roots [] seen) {e : Element} :
    e ∈ seen ↔ c.Reached roots e := by
  refine ⟨w.reached_seen e, fun h => ?_⟩
  induction h with
  | root he => exact (w.roots_covered _ he).resolve_right (by simp)
  | step _ hnext he' ih =>
    obtain ⟨next, hnext', hcov⟩ := w.seen_covered _ ih
    rw [hnext'] at hnext
    cases hnext
    exact (hcov _ he').resolve_right (by simp)

/-- A walk that ends well ends with nothing left to visit. -/
theorem Walk.of_visit_eq_ok (w : c.Walk roots todo seen) (h : c.visit todo seen = .ok l) :
    c.Walk roots [] l := by
  fun_induction visit c todo seen with
  | case1 seen =>
    cases h
    exact w
  | case2 seen e rest he ih => exact ih (w.skip he) h
  | case3 seen e rest he f hf => cases h
  | case4 seen e rest he next hnext ih => exact ih (w.see he hnext) h

/-- A walk fails at something reached. -/
theorem Walk.exists_of_visit_eq_error (w : c.Walk roots todo seen) {f : Fault}
    (h : c.visit todo seen = .error f) : ∃ e, c.Reached roots e ∧ c.refersTo e = .error f := by
  fun_induction visit c todo seen with
  | case1 seen => cases h
  | case2 seen e rest he ih => exact ih (w.skip he) h
  | case3 seen e rest he f' hf =>
    cases h
    exact ⟨e, w.reached_todo e (by simp), hf⟩
  | case4 seen e rest he next hnext ih => exact ih (w.see he hnext) h

/-- **What a walk sees.** A walk from some starting points succeeds if and only if all that is
reached from them is declared. -/
theorem exists_visit_eq_ok_iff :
    (∃ l, c.visit roots [] = .ok l) ↔
      ∀ e, c.Reached roots e → ∃ next, c.refersTo e = .ok next := by
  constructor
  · rintro ⟨l, hl⟩ e he
    have w := (Walk.start c roots).of_visit_eq_ok hl
    obtain ⟨next, hnext, -⟩ := w.seen_covered e (w.mem_seen_iff.2 he)
    exact ⟨next, hnext⟩
  · intro h
    cases hv : c.visit roots [] with
    | ok l => exact ⟨l, rfl⟩
    | error f =>
      obtain ⟨e, he, hf⟩ := (Walk.start c roots).exists_of_visit_eq_error hv
      obtain ⟨next, hnext⟩ := h e he
      rw [hf] at hnext
      cases hnext

/-! ## The closure of a container -/

variable {owner : Container} {closure : List Element}

/-- The closure of a container has each relationship of which it has a set. -/
theorem association_mem_closure (h : c.closure owner = .ok closure) {set : AssociationSet}
    (hset : set ∈ owner.associationSets) : .association set.association ∈ closure := by
  obtain ⟨roots, hroots, h⟩ := bind_eq_ok_iff.1 h
  obtain ⟨types, -, hr⟩ := bind_eq_ok_iff.1 hroots
  cases hr
  refine ((Walk.start c _).of_visit_eq_ok h).mem_seen_iff.2 (.root (List.mem_append_right _ ?_))
  exact List.mem_map.2 ⟨set, hset, rfl⟩

/-- The closure of a container has what the elements in it refer to. -/
theorem mem_closure_of_refersTo (h : c.closure owner = .ok closure) {e e' : Element}
    {next : List Element} (he : e ∈ closure) (hnext : c.refersTo e = .ok next) (he' : e' ∈ next) :
    e' ∈ closure := by
  obtain ⟨roots, -, h⟩ := bind_eq_ok_iff.1 h
  have w := (Walk.start c roots).of_visit_eq_ok h
  exact w.mem_seen_iff.2 (.step (w.mem_seen_iff.1 he) hnext he')

end Conceptual

end QueryViews
