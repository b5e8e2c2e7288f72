import QueryViews.Proofs.Dictionary.Failures
import QueryViews.Proofs.Session.History

/-!
# Failures in a history

Two requests for the view of one extent that both fail do so with the same message. Whether they
fail with the same error depends on the tables alone (`Session.History.failures`): an error that the
tables have is handed out again, and where the tables have no place for the view, each request
makes an error of its own.
-/

namespace QueryViews

variable {α ω : Type}

namespace Session

variable {s₀ s s' : Session α ω} {place : Nat} {d : Dictionary ω} {t t₀ : Tables}

/-- A step that fails to get a view: the tables grow, and no error is made twice. -/
theorem step_fails {acting : Nat} {step : Step} {r : Except (Failure (Published Error)) Answer}
    (h : s.step acting step = some (r, s')) (hd : s.dictionaries[place]? = some (d, t)) :
    ∃ t', s'.dictionaries[place]? = some (d, t') ∧ t.Within t' ∧ t.nextSerial ≤ t'.nextSerial ∧
      (acting = place → ∀ e x, step = .getView e → r = .error (.error x) →
        d.Fails t' e x ∧ (d.Lacks t' e → t.nextSerial ≤ x.serial)) := by
  obtain ⟨t', ht', ⟨-, sc, sc', rfl, rfl, hperform⟩ | ⟨hplace, rfl⟩⟩ := step_tables h hd
  · have hwithin := (d.keeps_published (s.host.seenBy d) sc.tables step sc (.refl _)).1
    have hserial := (d.keeps_serial (s.host.seenBy d) _ step sc le_rfl).1
    rw [hperform] at hwithin hserial
    refine ⟨_, ht', hwithin, hserial, ?_⟩
    rintro - e x rfl rfl
    exact Dictionary.getView_fails (Dictionary.getView_of_perform hperform)
  · exact ⟨t', ht', .refl _, le_rfl, fun h => absurd h hplace⟩

namespace History

variable {attempts : List Attempt}

/-- The requests for a view that failed in a history, and the order in which errors were made. -/
theorem fails (history : s₀.History attempts s) (hd : s₀.dictionaries[place]? = some (d, t₀)) :
    ∃ t, s.dictionaries[place]? = some (d, t) ∧
      (∀ a ∈ attempts, a.place = place → ∀ e x, a.step = .getView e →
        a.outcome = .error (.error x) → d.Fails t e x) ∧
      attempts.Pairwise fun a b => a.place = place → b.place = place → ∀ e x y,
        a.step = .getView e → b.step = .getView e → a.outcome = .error (.error x) →
        b.outcome = .error (.error y) → d.Lacks t e → x.serial < y.serial := by
  induction history with
  | start => exact ⟨t₀, hd, List.forall_mem_nil _, .nil⟩
  | @step attempts s s' a history hstep ih =>
    obtain ⟨t, ht, hfails, hordered⟩ := ih
    obtain ⟨t', ht', hwithin, hserial, hlast⟩ := step_fails hstep ht
    refine ⟨t', ht', ?_, List.pairwise_append.2 ⟨?_, List.pairwise_singleton _ _, ?_⟩⟩
    · intro b hb hplace e x hview hfailed
      rcases List.mem_append.1 hb with hb | hb
      · exact (hfails b hb hplace e x hview hfailed).within hwithin hserial
      · obtain rfl := List.mem_singleton.1 hb
        exact (hlast hplace e x hview hfailed).1
    -- what is lacking now was lacking then, so the earlier order stands
    · refine hordered.imp_of_mem fun hb _ hlt hplace hplace' e x y hview hview' hx hy hlacks => ?_
      have hlacks' := (hfails _ hb hplace e x hview hx).lacks_of_within hwithin hlacks
      exact hlt hplace hplace' e x y hview hview' hx hy hlacks'.1
    · intro b hb c hc hplace hplace' e x y hview hview' hx hy hlacks
      obtain rfl := List.mem_singleton.1 hc
      have hearlier := (hfails b hb hplace e x hview hx).lacks_of_within hwithin hlacks
      exact hearlier.2.trans_le ((hlast hplace' e y hview' hy).2 hlacks)

end History

end Session

/-! ## A depot -/

namespace Depot

/-- Two sets of crates, in a container that takes part in a mapping and in one that does not. -/
def declarations : List Declaration := [
  .entity "Crate", .field .key ⟨0⟩ "Id" .int32, .container "Depot", .container "Attic",
  .entitySet ⟨0⟩ "Crates" ⟨0⟩, .entitySet ⟨1⟩ "Crates" ⟨0⟩, .storeContainer "Db",
  .mapContainers ⟨0⟩ ⟨0⟩]

/-- The schema that they make. -/
def schema : Schema where
  conceptual := ⟨[⟨"Crate", [⟨"Id", .scalar .int32, false, false⟩],
    .entity ⟨none, false, [⟨⟨0⟩, 0⟩]⟩⟩], [],
    [⟨"Depot", [⟨"Crates", ⟨0⟩⟩], []⟩, ⟨"Attic", [⟨"Crates", ⟨0⟩⟩], []⟩]⟩
  store := ⟨[⟨"Db", []⟩], []⟩
  mapping := ⟨[⟨⟨0⟩, ⟨0⟩, []⟩]⟩

/-- The ids that are issued on the way. -/
def issued : List Issued := [.model ⟨0⟩, .field ⟨⟨0⟩, 0⟩, .container ⟨0⟩, .container ⟨1⟩,
  .entitySet ⟨⟨0⟩, 0⟩, .entitySet ⟨⟨1⟩, 0⟩, .store ⟨0⟩, .nothing]

/-- The crates of the depot, which is mapped. -/
def crates : Extent := .entitySet ⟨⟨0⟩, 0⟩

/-- The crates of the attic, which is not. -/
def attic : Extent := .entitySet ⟨⟨1⟩, 0⟩

/-- A dictionary with a generator, which does not search for artifacts. -/
def dictionary (generator : Generator Unit) : Dictionary Unit :=
  ⟨schema, ⟨false, true, true⟩, generator, true, .empty⟩

/-- A dictionary whose generator makes no view. -/
def idle : Dictionary Unit := dictionary fun _ => pure ⟨.empty, []⟩

/-- A dictionary whose generator fails. -/
def broken : Dictionary Unit := dictionary fun _ => .stop (.error (.plain "out of order"))

/-- The tables of a new dictionary that generates. -/
def tables : Tables := ⟨.runtimeGeneration, .empty, .empty, .empty, .empty, .empty, [], 0⟩

/-- The idle dictionary and the broken one. -/
def session : Session Unit Unit :=
  ⟨⟨fun _ => "Views", pure [], fun _ => pure []⟩, [(idle, tables), (broken, tables)], none, ()⟩

/-- Of the views that are asked for twice, only the failure of the pair is the same again. -/
def attempts : List Attempt := [
  ⟨0, .getView crates, .error (.error ⟨0, .viewNotGenerated "Depot.Crates"⟩)⟩,
  ⟨0, .getView crates, .error (.error ⟨1, .viewNotGenerated "Depot.Crates"⟩)⟩,
  ⟨1, .getView attic, .error (.error ⟨0, .viewNotGenerated "Attic.Crates"⟩)⟩,
  ⟨1, .getView crates, .error (.error ⟨1, .plain "out of order"⟩)⟩,
  ⟨1, .getView attic, .error (.error ⟨2, .viewNotGenerated "Attic.Crates"⟩)⟩,
  ⟨1, .getView crates, .error (.error ⟨1, .plain "out of order"⟩)⟩]

/-- That is how it goes. -/
theorem history : ∃ s, session.History attempts s :=
  ⟨_, .step (.step (.step (.step (.step (.step .start rfl) rfl) rfl) rfl) rfl) rfl⟩

/-- A view that the generator leaves out is missed with two errors, and so is one of a container
that takes part in no mapping. -/
theorem fails_anew : Schema.build declarations = .ok (schema, issued) ∧
    ∃ s, session.History attempts s ∧
      (∃ x y, attempts[0]? = some ⟨0, .getView crates, .error (.error x)⟩ ∧
        attempts[1]? = some ⟨0, .getView crates, .error (.error y)⟩ ∧ x.serial ≠ y.serial) ∧
      ∃ x y, attempts[2]? = some ⟨1, .getView attic, .error (.error x)⟩ ∧
        attempts[4]? = some ⟨1, .getView attic, .error (.error y)⟩ ∧ x.serial ≠ y.serial := by
  obtain ⟨s, history⟩ := history
  exact ⟨by cbv, s, history, ⟨_, _, rfl, rfl, by decide⟩, ⟨_, _, rfl, rfl, by decide⟩⟩

end Depot

/-! ## One message, one error or two -/

namespace Session

variable {s₀ s : Session α ω} {place : Nat} {d : Dictionary ω} {t₀ : Tables}

/-- **When failures are the same.** Of any two requests for the view of one extent that fail in a
history, among any collaborators, with steps that fault in between,

* the errors have the same content;
* they are one error unless the container of the extent takes part in no mapping, or its pair has
  been given views and none for this extent; in these two cases they never are;
* in these two cases they say that no view was generated for the extent. -/
theorem History.failures {attempts : List Attempt} (history : s₀.History attempts s)
    (hd : s₀.dictionaries[place]? = some (d, t₀)) :
    ∃ t, s.dictionaries[place]? = some (d, t) ∧
      attempts.Pairwise fun a b => a.place = place → b.place = place → ∀ e x y,
        a.step = .getView e → b.step = .getView e → a.outcome = .error (.error x) →
        b.outcome = .error (.error y) →
        x.value = y.value ∧ (x.serial = y.serial ↔ ¬ d.Lacks t e) ∧
        (d.Lacks t e → ∃ name, d.schema.extentName e = .ok name ∧
          x.value = .viewNotGenerated name) := by
  obtain ⟨t, ht, hfails, hordered⟩ := history.fails hd
  refine ⟨t, ht, hordered.imp_of_mem fun ha hb hlt hplace hplace' e x y hview hview' hx hy => ?_⟩
  have hfails_x := hfails _ ha hplace e x hview hx
  have hfails_y := hfails _ hb hplace' e y hview' hy
  obtain ⟨hvalue, hsame⟩ := hfails_x.agree hfails_y
  refine ⟨hvalue, ⟨fun hserial hlacks => ?_, fun hnot => congrArg _ (hsame hnot)⟩, fun hlacks => ?_⟩
  · exact (hlt hplace hplace' e x y hview hview' hx hy hlacks).ne hserial
  · exact hfails_x.exists_name hlacks

/-- In the depot, a broken generator is reported with one error, and a container that is not mapped
with two. -/
theorem depot_failures : ∃ s t, Depot.session.History Depot.attempts s ∧
    s.dictionaries[1]? = some (Depot.broken, t) ∧ ¬ Depot.broken.Lacks t Depot.crates ∧
    Depot.broken.Lacks t Depot.attic := by
  obtain ⟨s, history⟩ := Depot.history
  have hd : Depot.session.dictionaries[1]? = some (Depot.broken, Depot.tables) := rfl
  obtain ⟨t, ht, hpairwise⟩ := history.failures hd
  have hrequests := List.pairwise_iff_getElem.1 hpairwise
  refine ⟨s, t, history, ht, ?_, ?_⟩
  · have hsame := hrequests 3 5 (by decide) (by decide) (by decide) rfl rfl _ _ _ rfl rfl rfl rfl
    exact hsame.2.1.1 rfl
  · by_contra hnot
    have hsame := hrequests 2 4 (by decide) (by decide) (by decide) rfl rfl _ _ _ rfl rfl rfl rfl
    exact absurd (hsame.2.1.2 hnot) (by decide)

end Session

end QueryViews
