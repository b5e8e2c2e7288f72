import QueryViews.Proofs.Dictionary.Published

/-!
# How a dictionary fails

There are two ways not to have the view of an extent. Either the tables have an error in its place
(`Dictionary.Refuses`): the foreign key of the set cannot be turned into a view, or the views of the
pair could not be resolved, for whatever reason. That error is published once and handed out from
then on. Or the tables have nothing in its place (`Dictionary.Lacks`): the container takes part in
no mapping, or the views of the pair are there and this one is not among them. Then the error is
made for the one answer (`Dictionary.getView_fails`).
-/

namespace QueryViews

variable {α ω β : Type}

namespace Dictionary

variable {d : Dictionary ω} {host : Host α ω} {t t' : Tables} {sc sc' : Scene α ω} {e : Extent}
  {x y : Published Error}

/-- The tables have an error for an extent. -/
inductive Refuses (d : Dictionary ω) (t : Tables) (e : Extent) (x : Published Error) : Prop
  | foreignKey {set : AssociationSetId} (hroute : d.route e = .ok (.foreignKey set))
    (h : t.foreignKeys.get? set = some (.error x))
  | pair {id : ContainerId} (hroute : d.route e = .ok (.pair id))
    (h : t.pairs.get? id = some (.error x))

/-- The tables have no place for the view of an extent. -/
inductive Lacks (d : Dictionary ω) (t : Tables) (e : Extent) : Prop
  | unmapped {name : String} (hroute : d.route e = .ok (.unmapped name))
  | omitted {id : ContainerId} {views : PairViews} (hroute : d.route e = .ok (.pair id))
    (hpair : t.pairs.get? id = some (.ok views)) (hview : views.get? e = none)

/-- An error is what a request for the view of an extent ends with: the tables have it, or it was
made for this request. -/
inductive Fails (d : Dictionary ω) (t : Tables) (e : Extent) (x : Published Error) : Prop
  | kept (h : d.Refuses t e x)
  | anew {name : String} (h : d.Lacks t e) (hname : d.schema.extentName e = .ok name)
    (hvalue : x.value = .viewNotGenerated name) (hserial : x.serial < t.nextSerial)

/-! ## The two ways -/

/-- Tables have at most one error for an extent. -/
theorem Refuses.unique (hx : d.Refuses t e x) (hy : d.Refuses t e y) : x = y := by
  cases hx with
  | foreignKey hroute h =>
    cases hy with
    | foreignKey hroute' h' => grind
    | pair hroute' h' => cases hroute.symm.trans hroute'
  | pair hroute h =>
    cases hy with
    | foreignKey hroute' h' => cases hroute.symm.trans hroute'
    | pair hroute' h' => grind

/-- Where there is an error there is a place for a view. -/
theorem Refuses.not_lacks (hx : d.Refuses t e x) : ¬ d.Lacks t e := by
  intro hlacks
  cases hlacks with
  | unmapped hroute' => cases hx <;> grind
  | omitted hroute' hpair hview => cases hx <;> grind

/-- An error that was published stays. -/
theorem Refuses.within (hx : d.Refuses t e x) (h : t.Within t') : d.Refuses t' e x := by
  cases hx with
  | foreignKey hroute hget => exact .foreignKey hroute (h.foreignKeys _ _ hget)
  | pair hroute hget => exact .pair hroute (h.pairs _ _ hget)

/-- What has no place gets none later. -/
theorem Lacks.within (hlacks : d.Lacks t e) (h : t.Within t') : d.Lacks t' e := by
  cases hlacks with
  | unmapped hroute => exact .unmapped hroute
  | omitted hroute hpair hview => exact .omitted hroute (h.pairs _ _ hpair) hview

/-- What a request ended with is what later ones can end with. -/
theorem Fails.within (hx : d.Fails t e x) (h : t.Within t')
    (hserial : t.nextSerial ≤ t'.nextSerial) : d.Fails t' e x := by
  cases hx with
  | kept hrefuses => exact .kept (hrefuses.within h)
  | anew hlacks hname hvalue hlt =>
    exact .anew (hlacks.within h) hname hvalue (hlt.trans_le hserial)

/-- A failure made anew once is made anew whenever the tables have grown. -/
theorem Fails.lacks_of_within (hx : d.Fails t e x) (h : t.Within t') (hlacks : d.Lacks t' e) :
    d.Lacks t e ∧ x.serial < t.nextSerial := by
  cases hx with
  | kept hrefuses => exact absurd hlacks (hrefuses.within h).not_lacks
  | anew hlacks' _ _ hlt => exact ⟨hlacks', hlt⟩

/-- Two requests for one view fail with the same message, and with the same error unless it has to
be made anew. -/
theorem Fails.agree (hx : d.Fails t e x) (hy : d.Fails t e y) :
    x.value = y.value ∧ (¬ d.Lacks t e → x = y) := by
  cases hx with
  | kept hrefuses =>
    cases hy with
    | kept hrefuses' =>
      obtain rfl := hrefuses.unique hrefuses'
      exact ⟨rfl, fun _ => rfl⟩
    | anew hlacks => exact absurd hlacks hrefuses.not_lacks
  | anew hlacks hname hvalue =>
    cases hy with
    | kept hrefuses => exact absurd hlacks hrefuses.not_lacks
    | anew _ hname' hvalue' =>
      cases hname.symm.trans hname'
      exact ⟨hvalue.trans hvalue'.symm, fun hnot => absurd hlacks hnot⟩

/-- A failure without a place for the view says that none was generated. -/
theorem Fails.exists_name (hx : d.Fails t e x) (hlacks : d.Lacks t e) :
    ∃ name, d.schema.extentName e = .ok name ∧ x.value = .viewNotGenerated name := by
  cases hx with
  | kept hrefuses => exact absurd hlacks hrefuses.not_lacks
  | anew _ hname hvalue => exact ⟨_, hname, hvalue⟩

/-! ## Serial numbers -/

/-- No serial number is given twice. -/
theorem insensitive_serial (n : Nat) :
    d.Insensitive host fun sc => n ≤ sc.tables.nextSerial where
  scanned h := h
  loaded _ h := h
  generated _ h := h
  cleared h := h
  serial hn h := h.trans hn
  warnings _ h := h
  foreignKeys _ h := h
  members _ h := h
  typed _ h := h
  reserved _ h := h
  hashed _ _ h _ := h

/-- Numbers only grow when a pair is resolved. -/
theorem pairViews_keeps_serial (d : Dictionary ω) (host : Host α ω) (n : Nat) (id : ContainerId) :
    (d.pairViews host id).Keeps fun sc : Scene α ω => n ≤ sc.tables.nextSerial :=
  .getOrCompute ((insensitive_serial n).computePair (fun _ h => h) id) (fun _ h => h)
    fun _ _ h _ => h

/-- Numbers only grow, whatever the step. -/
theorem keeps_serial (d : Dictionary ω) (host : Host α ω) (n : Nat) (step : Step) :
    (d.perform host step).Keeps fun sc : Scene α ω => n ≤ sc.tables.nextSerial :=
  (insensitive_serial n).perform step fun id _ => pairViews_keeps_serial d host n id

/-! ## Requests that fail -/

/-- An extent without a mapping goes by its qualified name. -/
theorem extentName_of_route {name : String} (h : d.route e = .ok (.unmapped name)) :
    d.schema.extentName e = .ok name := by
  cases route_eq_ok_iff.1 h with
  | unmapped _ _ _ _ hname => exact hname

/-- An error that comes out of a table was in it. -/
theorem unwrap_apply_eq_error {r : Resolved β}
    (h : Scene.unwrap r sc = (.error (.error x), sc')) : r = .error x ∧ sc = sc' := by
  cases r with
  | ok b => cases h
  | error y =>
    cases h
    exact ⟨rfl, rfl⟩

/-- A request for a view that fails: why it does, and that an error made for it is a new one. -/
theorem getView_fails (h : d.getView host e sc = (.error (.error x), sc')) :
    d.Fails sc'.tables e x ∧ (d.Lacks sc'.tables e → sc.tables.nextSerial ≤ x.serial) := by
  obtain ⟨route, hroute, hrest⟩ := Act.lookup_bind_apply_eq_error h
  cases route with
  | userView view => cases hrest
  | foreignKey set =>
    obtain ⟨r, sc₁, hr, hrest⟩ := Act.widen_bind_apply_eq_error hrest
    obtain ⟨rfl, rfl⟩ := unwrap_apply_eq_error hrest
    have hrefuses : d.Refuses sc₁.tables e x := .foreignKey hroute (Act.get?_of_getOrCompute hr)
    exact ⟨.kept hrefuses, fun hlacks => absurd hlacks hrefuses.not_lacks⟩
  | unmapped name =>
    cases hrest
    exact ⟨.anew (.unmapped hroute) (extentName_of_route hroute) rfl (Nat.lt_succ_self _),
      fun _ => le_rfl⟩
  | pair id =>
    rw [getView_of_route hroute] at h
    obtain ⟨r, sc₁, hr, hrest⟩ := Act.widen_bind_apply_eq_error h
    have hpair : sc₁.tables.pairs.get? id = some r := Act.get?_of_getOrCompute hr
    cases r with
    | error y =>
      cases hrest
      have hrefuses : d.Refuses sc'.tables e x := .pair hroute hpair
      exact ⟨.kept hrefuses, fun hlacks => absurd hlacks hrefuses.not_lacks⟩
    | ok views =>
      simp only [viewFrom, Scene.unwrap, pure_bind] at hrest
      cases hview : views.get? e with
      | some view =>
        rw [hview] at hrest
        cases hrest
      | none =>
        rw [hview] at hrest
        obtain ⟨name, hname, hrest⟩ := Act.lookup_bind_apply_eq_error hrest
        cases hrest
        -- resolving the pair may have given serial numbers, but took none back
        have hgrows := (pairViews_keeps_serial d host _ id sc le_rfl).1
        rw [hr] at hgrows
        exact ⟨.anew (.omitted hroute hpair hview) hname rfl (Nat.lt_succ_self _),
          fun _ => hgrows⟩

/-- A step that asks for a view fails as the request does. -/
theorem getView_of_perform (h : d.perform host (.getView e) sc = (.error (.error x), sc')) :
    d.getView host e sc = (.error (.error x), sc') := by
  rw [perform, Act.bind_apply] at h
  rcases hview : d.getView host e sc with ⟨f | v, sc₁⟩ <;> rw [hview] at h <;> cases h
  rfl

end Dictionary

end QueryViews
