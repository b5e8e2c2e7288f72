import QueryViews.Proofs.Act
import QueryViews.Proofs.Memo.Events
import QueryViews.Proofs.OrderedMap

/-!
# Clients of a memo table

A **client** (`Client`) is anything that one thread can do with one memo table: look for values,
count them, and ask for them with functions that compute them. These functions are clients
themselves. They ask in turn, to any depth; they end with a value or without; and what they do may
depend on all that happened so far (`Client.reflect`), so that the same function can answer
differently each time.

Running a client leaves a diary of what it saw. The functions write down themselves that they are
run, so the diary says that one was run exactly if the table did run it. Unless a key is asked for
while it is being computed, the diary is lawful and the table holds what the diary tells
(`Client.carries_run`), and so every key has the value that a function returned for it first, once
one did, and no value before that (`Client.run_owed`).
-/

namespace QueryViews

variable {κ α : Type}

/-! ## Sizes -/

/-- How many keys have a value, given which ones. -/
theorem Memo.size_eq_length [DecidableEq κ] {m : Memo κ α} {keys : List κ} (hnodup : keys.Nodup)
    (hmem : ∀ k, k ∈ keys ↔ (m.get? k).isSome) : m.size = keys.length := by
  let filled := m.slots.entries.filter (·.2.isSome)
  have hfilled : (filled.map Prod.fst).Nodup :=
    m.slots.nodup_keys.sublist (List.filter_sublist.map _)
  have hsame (k : κ) : k ∈ filled.map Prod.fst ↔ k ∈ keys := by
    rw [hmem, Memo.get?, Option.isSome_iff_exists, List.mem_map]
    constructor
    · rintro ⟨⟨j, slot⟩, hp, rfl⟩
      obtain ⟨hentry, hsome⟩ := List.mem_filter.1 hp
      obtain ⟨a, rfl⟩ := Option.isSome_iff_exists.1 hsome
      exact ⟨a, by rw [OrderedMap.get?_eq_some_iff.2 hentry]; rfl⟩
    · rintro ⟨a, ha⟩
      have hget : m.slots.get? k = some (some a) := Option.join_eq_some_iff.1 ha
      exact ⟨(k, some a),
        List.mem_filter.2 ⟨OrderedMap.get?_eq_some_iff.1 hget, rfl⟩, rfl⟩
  have hperm := (List.perm_ext_iff_of_nodup hfilled hnodup).2 hsame
  rw [← hperm.length_eq, List.length_map]
  rfl

/-! ## Diaries -/

/-- The same act with its outcome, whatever that is, as its value. -/
def Act.attempt {σ ε ε' : Type} (x : Act σ ε α) : Act σ ε' (Except ε α) := fun s =>
  (.ok (x s).1, (x s).2)

/-- A memo table and what its client saw so far. -/
structure Diary (κ α : Type) where
  memo : Memo κ α
  events : List (MemoEvent κ α)

namespace Diary

/-- The diary with one more thing that happened. -/
def note (e : MemoEvent κ α) (d : Diary κ α) : Diary κ α := { d with events := d.events ++ [e] }

/-- The table in a diary. -/
def shelf : Shelf (Diary κ α) κ α := ⟨memo, fun m d => { d with memo := m }, fun _ _ => rfl⟩

variable [DecidableEq κ]

/-- An empty table of which nothing was seen. -/
def blank : Diary κ α := ⟨.empty, []⟩

/-- A function that computes the value under a key, with a note when it is run and one when it
ends. -/
def noted (k : κ) (compute : Act (Diary κ α) Fault α) : Act (Diary κ α) Fault α := do
  Act.modify (note (.began k))
  let outcome ← compute.attempt
  Act.modify (note (.ended k outcome))
  Act.ofExcept outcome

/-- The diary when the function for a key is about to be run: the key has its slot. -/
def begin (d : Diary κ α) (k : κ) : Diary κ α :=
  ⟨d.memo.reserve k, d.events ++ [.asked k, .began k]⟩

/-- The diary after the function for a key ended, given the one in which it did. -/
def close (d : Diary κ α) (k : κ) (outcome : Except Fault α) : Diary κ α where
  memo := match outcome with
    | .ok a => d.memo.publish k a
    | .error _ => d.memo
  events := d.events ++ [.ended k outcome, .answered k outcome]

end Diary

/-! ## Clients -/

/-- What a single thread does with a memo table. -/
inductive Client (κ α : Type)
  /-- ends with a value, or without one -/
  | finish (outcome : Except Fault α)
  /-- goes on as it sees fit after all that happened so far -/
  | reflect (next : List (MemoEvent κ α) → Client κ α)
  /-- looks for the value under a key -/
  | look (key : κ) (next : Option α → Client κ α)
  /-- counts the keys that have a value -/
  | count (next : Nat → Client κ α)
  /-- asks for the value under a key, with a function that can compute it; the client may go on even
  if the function gave none -/
  | ask (key : κ) (compute : Client κ α) (next : Except Fault α → Client κ α)

namespace Client

variable [DecidableEq κ]

/-- What a client does to a table, and what it sees. -/
def run : Client κ α → Act (Diary κ α) Fault α
  | finish outcome => Act.ofExcept outcome
  | reflect next => do
    let d ← Act.state
    (next d.events).run
  | look k next => do
    let found := (← Act.state).memo.get? k
    Act.modify (Diary.note (.looked k found))
    (next found).run
  | count next => do
    let n := (← Act.state).memo.size
    Act.modify (Diary.note (.counted n))
    (next n).run
  | ask k compute next => do
    Act.modify (Diary.note (.asked k))
    let outcome ← (Diary.shelf.getOrCompute k (Diary.noted k compute.run)).attempt
    Act.modify (Diary.note (.answered k outcome))
    (next outcome).run

variable {d d' : Diary κ α} {k : κ} {a : α} {f : Fault} {compute : Client κ α}
  {next : Except Fault α → Client κ α}

/-! ## Asking -/

/-- A hit: the function is not run. -/
theorem run_ask_of_some (h : d.memo.get? k = some a) :
    (ask k compute next).run d =
      (next (.ok a)).run ⟨d.memo, d.events ++ [.asked k, .answered k (.ok a)]⟩ := by
  have hit : Diary.shelf.getOrCompute k (Diary.noted k compute.run) (Diary.note (.asked k) d) =
      (.ok a, Diary.note (.asked k) d) := Diary.shelf.getOrCompute_of_some _ h
  change (next (Diary.shelf.getOrCompute k (Diary.noted k compute.run) _).1).run
    (Diary.note _ _) = _
  rw [hit, Diary.note, Diary.note, List.append_assoc]
  rfl

/-- What the table sees of a function that is run. -/
theorem noted_eq {outcome : Except Fault α} (hrun : compute.run (d.begin k) = (outcome, d')) :
    Diary.noted k compute.run ⟨d.memo.reserve k, d.events ++ [.asked k]⟩ =
      (outcome, Diary.note (.ended k outcome) d') := by
  have hbegun : Diary.note (.began k) ⟨d.memo.reserve k, d.events ++ [.asked k]⟩ = d.begin k := by
    rw [Diary.note, Diary.begin, List.append_assoc]
    rfl
  have hattempt : (compute.run.attempt : Act _ Fault _) (d.begin k) = (.ok outcome, d') := by
    rw [Act.attempt, hrun]
  rw [Diary.noted, Act.bind_apply_ok (Act.modify_apply _ _), hbegun, Act.bind_apply_ok hattempt,
    Act.bind_apply_ok (Act.modify_apply _ _)]
  cases outcome <;> rfl

/-- A miss: the function is run. Its value is published and is the answer, unless it asked for its
own key. -/
theorem run_ask_of_none {outcome : Except Fault α} (next : Except Fault α → Client κ α)
    (h : d.memo.get? k = none) (hrun : compute.run (d.begin k) = (outcome, d')) :
    ∃ answer d'', (ask k compute next).run d = (next answer).run d'' ∧
      d'.events <+: d''.events ∧
      (d'.memo.get? k = none → answer = outcome ∧ d'' = d'.close k outcome) := by
  -- whatever the table answers is noted right after the end of the function
  have hask {answer : Except Fault α} {memo : Memo κ α}
      (hmiss : Diary.shelf.getOrCompute k (Diary.noted k compute.run) (Diary.note (.asked k) d) =
        (answer, ⟨memo, d'.events ++ [.ended k outcome]⟩)) :
      (ask k compute next).run d = (next answer).run
        ⟨memo, d'.events ++ [.ended k outcome, .answered k answer]⟩ := by
    change (next (Diary.shelf.getOrCompute k (Diary.noted k compute.run) _).1).run
      (Diary.note _ _) = _
    rw [hmiss, Diary.note, List.append_assoc]
    rfl
  cases outcome with
  | error f =>
    have hmiss := Diary.shelf.getOrCompute_of_error (s := Diary.note (.asked k) d) h (noted_eq hrun)
    exact ⟨_, _, hask hmiss, List.prefix_append _ _, fun _ => ⟨rfl, rfl⟩⟩
  | ok a =>
    have hmiss := Diary.shelf.getOrCompute_of_ok (s := Diary.note (.asked k) d) h (noted_eq hrun)
    refine ⟨_, _, hask hmiss, List.prefix_append _ _, fun hnone => ?_⟩
    have hget : (Diary.shelf.table (Diary.note (.ended k (.ok a)) d')).get? k = none := hnone
    rw [hget]
    exact ⟨rfl, rfl⟩

/-- A diary is only added to. -/
theorem events_mono (c : Client κ α) (d : Diary κ α) : d.events <+: (c.run d).2.events := by
  induction c generalizing d with
  | finish outcome => cases outcome <;> exact List.prefix_refl _
  | reflect next ih => exact ih _ d
  | look k next ih =>
    exact (List.prefix_append _ _).trans (ih _ (Diary.note (.looked k (d.memo.get? k)) d))
  | count next ih =>
    exact (List.prefix_append _ _).trans (ih _ (Diary.note (.counted d.memo.size) d))
  | ask k compute next ihc ih =>
    cases hk : d.memo.get? k with
    | some a =>
      rw [run_ask_of_some hk]
      exact (List.prefix_append _ _).trans (ih _ ⟨_, _⟩)
    | none =>
      obtain ⟨answer, d', hask, hevents, -⟩ :=
        run_ask_of_none next hk (Prod.eta (compute.run (d.begin k))).symm
      rw [hask]
      exact (List.prefix_append _ _).trans
        ((ihc (d.begin k)).trans (hevents.trans (ih answer d')))

end Client

/-! ## Diaries that tell the truth -/

namespace Diary

variable [DecidableEq κ]

/-- The diary is lawful, and the values in the table are those that it tells. -/
structure Told (d : Diary κ α) : Prop where
  lawful : Lawful d.events
  get? : ∀ k, d.memo.get? k = firstValue? d.events k

theorem told_blank : (blank : Diary κ α).Told := ⟨.start, fun _ => rfl⟩

/-- From one diary to a later one, at which the same keys are being computed: these have not got
values in the meantime. -/
structure Carries (d d' : Diary κ α) : Prop where
  told : d'.Told
  busy : computing d'.events = computing d.events
  kept : ∀ k ∈ computing d.events, firstValue? d'.events k = firstValue? d.events k

variable {d d' d'' : Diary κ α} {k j : κ} {a : α}

/-- From a lawful diary to itself nothing has happened. -/
theorem Told.carries_self (h : d.Told) : d.Carries d := ⟨h, rfl, fun _ _ => rfl⟩

/-- What happened first and what happened then have happened. -/
theorem Carries.trans (h : d.Carries d') (h' : d'.Carries d'') : d.Carries d'' where
  told := h'.told
  busy := h'.busy.trans h.busy
  kept k hk := (h'.kept k (h.busy ▸ hk)).trans (h.kept k hk)

/-- The size of the table is the number of keys with a value. -/
theorem Told.size (h : d.Told) : d.memo.size = (returnedKeys d.events).length :=
  Memo.size_eq_length (List.nodup_dedup _) fun k => by rw [mem_returnedKeys_iff, h.get?]

/-- An event at which nothing returns, begins or ends. -/
theorem Told.carries_concat {e : MemoEvent κ α} (h : d.Told) (hlawful : Lawful (d.events ++ [e]))
    (hreturned : e.returned? = none) (hbusy : ∀ busy, e.computing busy = busy) :
    d.Carries (note e d) where
  told := ⟨hlawful, fun k =>
    (h.get? k).trans (congrFun (firstValue?_concat_of_none hreturned) k).symm⟩
  busy := computing_concat.trans (hbusy _)
  kept k _ := congrFun (firstValue?_concat_of_none hreturned) k

/-- A look at the table tells what is there. -/
theorem Told.carries_looked (h : d.Told) (k : κ) :
    d.Carries (note (.looked k (d.memo.get? k)) d) := by
  rw [h.get?]
  exact h.carries_concat (h.lawful.looked k) rfl fun _ => rfl

/-- A count tells the size of the table. -/
theorem Told.carries_counted (h : d.Told) : d.Carries (note (.counted d.memo.size) d) := by
  rw [h.size]
  exact h.carries_concat h.lawful.counted rfl fun _ => rfl

/-- Two events, of which the first and the second make no value. -/
theorem firstValue?_append_pair {es : List (MemoEvent κ α)} {x y : MemoEvent κ α}
    (hx : x.returned? = none) (hy : y.returned? = none) :
    firstValue? (es ++ [x, y]) = firstValue? es := by
  rw [List.append_cons, firstValue?_concat_of_none hy, firstValue?_concat_of_none hx]

omit [DecidableEq κ] in
/-- What is being computed after two more events. -/
theorem computing_append_pair {es : List (MemoEvent κ α)} {x y : MemoEvent κ α} :
    computing (es ++ [x, y]) = y.computing (x.computing (computing es)) := by
  rw [List.append_cons, computing_concat, computing_concat]

/-- A request for a key with a value is answered at once, and with that. -/
theorem Told.carries_hit (h : d.Told) (hk : d.memo.get? k = some a) :
    d.Carries ⟨d.memo, d.events ++ [.asked k, .answered k (.ok a)]⟩ where
  told := {
    lawful := h.lawful.hit ((h.get? k).symm.trans hk)
    get? := fun j => by rw [firstValue?_append_pair rfl rfl]; exact h.get? j }
  busy := computing_append_pair
  kept j _ := by rw [firstValue?_append_pair rfl rfl]

/-- To run a function for a key without a value is lawful. -/
theorem told_begin (h : d.Told) (hk : d.memo.get? k = none) : (d.begin k).Told where
  lawful := h.lawful.began ((h.get? k).symm.trans hk)
  get? j := by
    rw [Diary.begin, firstValue?_append_pair rfl rfl, Memo.get?_reserve]
    exact h.get? j

/-- The function that is run is the innermost one. -/
theorem computing_begin : computing (d.begin k).events = k :: computing d.events :=
  computing_append_pair

/-- A function that ends with a value gives its key that one, unless there was one before. -/
theorem firstValue?_append_ended {es : List (MemoEvent κ α)} (outcome : Except Fault α) :
    firstValue? (es ++ [.ended k outcome, .answered k outcome]) j =
      (firstValue? es j).or (if k = j then outcome.toOption else none) := by
  rw [List.append_cons, firstValue?_concat_of_none rfl]
  cases outcome with
  | ok a => rw [firstValue?_concat_ended, Except.toOption]
  | error f =>
    rw [firstValue?_concat_of_none rfl, Except.toOption, ite_self, Option.or_none]

/-- What ends is the function of the innermost key, which had no value so far. -/
theorem told_close (h : d.Told) (hbusy : (computing d.events).head? = some k)
    (hnone : firstValue? d.events k = none) (outcome : Except Fault α) :
    (d.close k outcome).Told where
  lawful := h.lawful.ended hbusy hnone outcome
  get? j := by
    change _ = firstValue? (d.events ++ [.ended k outcome, .answered k outcome]) j
    rw [firstValue?_append_ended, ← h.get?]
    cases outcome with
    | error f =>
      change d.memo.get? j = _
      rw [Except.toOption, ite_self, Option.or_none]
    | ok a =>
      change (d.memo.publish k a).get? j = _
      rw [Memo.get?_publish, (h.get? k).trans hnone]
      by_cases hj : k = j
      · subst hj
        rw [(h.get? k).trans hnone, if_pos rfl, if_pos rfl]
        rfl
      · rw [if_neg hj, if_neg hj, Option.or_none]

/-- From before a request that is no hit to after its answer, given what happens while the function
is run. -/
theorem Told.carries_close (h : d.Told) (hk : d.memo.get? k = none)
    (hfree : k ∉ computing d.events) (hrun : (d.begin k).Carries d') (outcome : Except Fault α) :
    d'.memo.get? k = none ∧ d.Carries (d'.close k outcome) := by
  have hbusy : computing d'.events = k :: computing d.events := hrun.busy.trans computing_begin
  have hkept (j : κ) (hj : j ∈ k :: computing d.events) :
      firstValue? d'.events j = firstValue? d.events j := by
    rw [hrun.kept j (by rwa [computing_begin]), begin, firstValue?_append_pair rfl rfl]
  have hnone : firstValue? d'.events k = none := by
    rw [hkept k List.mem_cons_self, ← h.get?, hk]
  refine ⟨(hrun.told.get? k).trans hnone, ?_, ?_, ?_⟩
  · exact told_close hrun.told (by rw [hbusy]; rfl) hnone outcome
  · exact computing_append_pair.trans (by rw [hbusy]; rfl)
  · intro j hj
    have hne : k ≠ j := fun heq => hfree (heq ▸ hj)
    change firstValue? (d'.events ++ [.ended k outcome, .answered k outcome]) j = _
    rw [firstValue?_append_ended, if_neg hne, Option.or_none]
    exact hkept j (List.mem_cons_of_mem k hj)

end Diary

namespace Client

variable [DecidableEq κ]

/-- A run from a diary that tells the truth ends in one, unless a key is asked for while it is being
computed. -/
theorem carries_run (c : Client κ α) {d : Diary κ α} (h : d.Told)
    (hpolite : Polite (c.run d).2.events) : d.Carries (c.run d).2 := by
  -- by induction on the client; a function that is run is one, with one key more being computed
  induction c generalizing d with
  | finish outcome => cases outcome <;> exact h.carries_self
  | reflect next ih => exact ih _ h hpolite
  | look k next ih =>
    have hlooked := h.carries_looked k
    exact hlooked.trans (ih _ hlooked.told hpolite)
  | count next ih =>
    have hcounted := h.carries_counted
    exact hcounted.trans (ih _ hcounted.told hpolite)
  | ask k compute next ihc ih =>
    cases hk : d.memo.get? k with
    | some a =>
      rw [run_ask_of_some hk] at hpolite ⊢
      have hhit := h.carries_hit hk
      exact hhit.trans (ih _ hhit.told hpolite)
    | none =>
      obtain ⟨answer, d', hask, hevents, hclose⟩ :=
        run_ask_of_none next hk (Prod.eta (compute.run (d.begin k))).symm
      rw [hask] at hpolite ⊢
      have hpolite' : Polite (compute.run (d.begin k)).2.events := by
        obtain ⟨rest, hrest⟩ := hevents.trans (events_mono (next answer) d')
        exact (hrest ▸ hpolite).of_append
      -- the key is not being computed already, for then it was impolite to ask for it
      have hfree : k ∉ computing d.events := by
        obtain ⟨rest, hrest⟩ := events_mono compute (d.begin k)
        refine hpolite' d.events k (.began k :: rest) ?_
        rw [← hrest, Diary.begin, List.append_assoc]
        rfl
      have hrun := ihc (Diary.told_begin h hk) hpolite'
      obtain ⟨hnone, hcarries⟩ := h.carries_close hk hfree hrun (compute.run (d.begin k)).1
      obtain ⟨rfl, rfl⟩ := hclose hnone
      exact hcarries.trans (ih _ hcarries.told hpolite)

/-- A client that nests: its first function asks for another key and then gives no value, and its
second one gives the number of things that happened before. -/
def nested : Client Nat Nat :=
  ask 1 (ask 2 (finish (.ok 20)) fun _ => look 1 fun _ => finish (.error .collaborator)) fun _ =>
    look 1 fun _ => count fun _ =>
      ask 1 (reflect fun events => finish (.ok events.length)) fun _ =>
        ask 1 (finish (.ok 0)) fun outcome => count fun _ => finish outcome

/-- **A key keeps the value that was returned for it first.** Let a thread do anything with a new
memo table, with functions that answer as they like, give no value or ask in turn, only not for a
key while it is being computed.

* At every event the table does what it owes, given what came before (`Owed`): it runs the function
  of a request exactly if no function for the key returned so far, and looking for a value or
  counting the values runs none.
* Once a function for a key returned, no other one is run, and its value is the answer to all
  requests and what is found.
* A function that gives no value publishes nothing: the key has none after it as before.
* In the end the table holds what the functions returned first, and nothing else. -/
theorem run_owed (c : Client κ α) (hpolite : Polite (c.run .blank).2.events) :
    let d := (c.run .blank).2
    AllOwed d.events ∧
    (∀ before after k a, d.events = before ++ after → firstValue? before k = some a →
      .began k ∉ after ∧ (∀ outcome, .ended k outcome ∉ after) ∧
      (∀ outcome, .answered k outcome ∈ after → outcome = .ok a) ∧
      ∀ value?, .looked k value? ∈ after → value? = some a) ∧
    (∀ before k f after, d.events = before ++ .ended k (.error f) :: after →
      firstValue? (before ++ [.ended k (.error f)]) k = none) ∧
    (∀ k, d.memo.get? k = firstValue? d.events k) ∧
    d.memo.size = (returnedKeys d.events).length := by
  intro d
  have htold : d.Told := (c.carries_run Diary.told_blank hpolite).told
  have howed := htold.lawful.owed
  refine ⟨howed, fun before after k a hsplit hvalue => ?_, fun before k f after hsplit => ?_,
    htold.get?, htold.size⟩
  · rw [hsplit] at howed
    exact howed.settled hvalue
  · rw [firstValue?_concat_of_none rfl]
    exact (howed before _ after hsplit).2.1

/-- After the second function for the first key returned, none is run for it: its value is given to
the request that comes with another function. -/
theorem nested_owed : Polite (nested.run .blank).2.events ∧
    ∃ before after, (nested.run .blank).2.events = before ++ after ∧
      firstValue? before 1 = some 13 ∧ .began 1 ∉ after ∧ .answered 1 (.ok 13) ∈ after := by
  have hpolite : Polite (nested.run .blank).2.events := by decide
  obtain ⟨-, hsettled, -⟩ := run_owed nested hpolite
  refine ⟨hpolite, _, _, (List.take_append_drop 14 _).symm, rfl, ?_, ?_⟩
  · exact (hsettled _ _ 1 13 (List.take_append_drop 14 _).symm rfl).1
  · exact List.mem_cons_self

end Client

end QueryViews
