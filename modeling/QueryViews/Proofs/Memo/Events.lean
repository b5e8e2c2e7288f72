import QueryViews.Fault
import Mathlib.Data.List.Dedup
import Mathlib.Data.List.Induction

/-!
# What happens around a memo table

A thread that uses a memo table sees a list of events: it asks for the value under a key, the
function that it gave is run or not, that function asks in turn, and sooner or later every request
is answered. The list is **lawful** (`Lawful`) if it could have been written by following one rule,
in terms of nothing but the list so far: the value under a key is the one that a function for the
key returned first (`firstValue?`).

So what the table owes its user at an event (`Owed`) can be said from what came before and what came
next, and holds all over a lawful list (`Lawful.owed`).
-/

namespace QueryViews

/-- What the user of a memo table sees. -/
inductive MemoEvent (κ α : Type)
  /-- the value under a key is asked for, with a function that could compute it -/
  | asked (key : κ)
  /-- the function is run -/
  | began (key : κ)
  /-- the function ended, with a value or without -/
  | ended (key : κ) (outcome : Except Fault α)
  /-- the request is answered -/
  | answered (key : κ) (outcome : Except Fault α)
  /-- the value under a key was looked for, and this was found -/
  | looked (key : κ) (value? : Option α)
  /-- the values were counted -/
  | counted (n : Nat)

namespace MemoEvent

variable {κ α : Type}

/-- The key and the value, if a function returned one. -/
def returned? : MemoEvent κ α → Option (κ × α)
  | .ended k (.ok a) => some (k, a)
  | _ => none

/-- The keys that are being computed after an event, the innermost first. -/
def computing (busy : List κ) : MemoEvent κ α → List κ
  | .began k => k :: busy
  | .ended _ _ => busy.tail
  | _ => busy

/-- The key that is asked for. -/
def asks? : MemoEvent κ α → Option κ
  | .asked k => some k
  | _ => none

end MemoEvent

variable {κ α : Type} {es : List (MemoEvent κ α)} {e : MemoEvent κ α} {k j : κ} {a : α}

/-! ## What a list of events tells -/

/-- What functions returned, in the order in which they did. -/
def returnedPairs (es : List (MemoEvent κ α)) : List (κ × α) := es.filterMap MemoEvent.returned?

/-- The keys for which a function returned, each of them once. -/
def returnedKeys [DecidableEq κ] (es : List (MemoEvent κ α)) : List κ :=
  ((returnedPairs es).map Prod.fst).dedup

/-- The value that a function for the key was the first to return. -/
def firstValue? [DecidableEq κ] (es : List (MemoEvent κ α)) (k : κ) : Option α :=
  ((returnedPairs es).find? (·.1 = k)).map Prod.snd

/-- The keys that are being computed after some events, the innermost first. -/
def computing (es : List (MemoEvent κ α)) : List κ := es.foldl MemoEvent.computing []

/-- No key is asked for while it is being computed. -/
def Polite (es : List (MemoEvent κ α)) : Prop :=
  ∀ before k after, es = before ++ .asked k :: after → k ∉ computing before

/-- Politeness can be checked event by event. -/
theorem polite_iff : Polite es ↔
    ∀ i < es.length, ∀ k ∈ es[i]?.bind MemoEvent.asks?, k ∉ computing (es.take i) := by
  constructor
  · intro h i hi k hk
    obtain ⟨e, he, hk⟩ := Option.bind_eq_some_iff.1 hk
    obtain rfl : e = .asked k := by
      cases e <;> cases hk
      rfl
    obtain ⟨hlt, hget⟩ := List.getElem?_eq_some_iff.1 he
    refine h (es.take i) k (es.drop (i + 1)) ?_
    rw [← hget, ← List.drop_eq_getElem_cons hlt, List.take_append_drop]
  · rintro h before k after rfl
    have hk := h before.length (by simp) k (by simp [MemoEvent.asks?])
    rwa [List.take_left' rfl] at hk

instance [DecidableEq κ] : Decidable (Polite es) := decidable_of_iff' _ polite_iff

/-- What was polite on the whole was so from the start. -/
theorem Polite.of_append {fs : List (MemoEvent κ α)} (h : Polite (es ++ fs)) : Polite es := by
  rintro before k after rfl
  exact h before k (after ++ fs) (by simp)

/-- One more event changes what is being computed as it says. -/
theorem computing_concat : computing (es ++ [e]) = e.computing (computing es) := by
  rw [computing, List.foldl_append]
  rfl

section FirstValue

variable [DecidableEq κ]

/-- A function returned for the keys that have a value. -/
theorem mem_returnedKeys_iff : k ∈ returnedKeys es ↔ (firstValue? es k).isSome := by
  simp [returnedKeys, firstValue?, List.find?_isSome]

/-- Only what a function returned makes a difference. -/
theorem firstValue?_concat_of_none (he : e.returned? = none) :
    firstValue? (es ++ [e]) = firstValue? es := by
  funext k
  rw [firstValue?, firstValue?, returnedPairs, List.filterMap_append, List.filterMap_cons, he,
    List.filterMap_nil, List.append_nil]
  rfl

/-- A function that returns gives its key a value, unless there was one before. -/
theorem firstValue?_concat_ended : firstValue? (es ++ [.ended k (.ok a)]) j =
    (firstValue? es j).or (if k = j then some a else none) := by
  have hpairs : returnedPairs (es ++ [.ended k (.ok a)]) = returnedPairs es ++ [(k, a)] := by
    rw [returnedPairs, List.filterMap_append]
    rfl
  rw [firstValue?, firstValue?, hpairs, List.find?_append]
  by_cases hk : k = j
  · rw [if_pos hk]
    cases (returnedPairs es).find? (·.1 = j) <;> simp [hk]
  · rw [if_neg hk]
    simp [hk]

/-- Once there is a value for a key, it stays. -/
theorem firstValue?_append_of_some {fs : List (MemoEvent κ α)} (h : firstValue? es k = some a) :
    firstValue? (es ++ fs) k = some a := by
  obtain ⟨p, hfind, rfl⟩ := Option.map_eq_some_iff.1 h
  rw [firstValue?, returnedPairs, List.filterMap_append]
  change (((returnedPairs es ++ returnedPairs fs).find? (·.1 = k))).map _ = _
  rw [List.find?_append, hfind]
  rfl

/-! ## Lawful lists -/

/-- Lists of events that follow the rule. A request is answered at once if there is a value, and
otherwise the function is run; what the function that is the innermost one ends with is the answer
to its request. -/
inductive Lawful : List (MemoEvent κ α) → Prop
  | start : Lawful []
  | looked {es : List (MemoEvent κ α)} (h : Lawful es) (k : κ) :
    Lawful (es ++ [.looked k (firstValue? es k)])
  | counted {es : List (MemoEvent κ α)} (h : Lawful es) :
    Lawful (es ++ [.counted (returnedKeys es).length])
  | hit {es : List (MemoEvent κ α)} {k : κ} {a : α} (h : Lawful es)
    (hvalue : firstValue? es k = some a) : Lawful (es ++ [.asked k, .answered k (.ok a)])
  | began {es : List (MemoEvent κ α)} {k : κ} (h : Lawful es) (hvalue : firstValue? es k = none) :
    Lawful (es ++ [.asked k, .began k])
  | ended {es : List (MemoEvent κ α)} {k : κ} (h : Lawful es)
    (hbusy : (computing es).head? = some k) (hvalue : firstValue? es k = none)
    (outcome : Except Fault α) : Lawful (es ++ [.ended k outcome, .answered k outcome])

/-- What a memo table owes its user at an event, after some events and before others:

* a request is answered with the value that there is, and else the function is run;
* a function is run only for a request, and only while there is no value;
* it is the innermost function that ends, there is no value until then, and what it ends with is the
  answer to its request;
* an answer comes right after a request, or after the function for it, and gives the first value;
* looking for a value gives the first one, or nothing as long as there is none;
* the number of values is that of the keys for which a function returned. -/
def Owed (before after : List (MemoEvent κ α)) : MemoEvent κ α → Prop
  | .asked k =>
    (∀ a, firstValue? before k = some a → after.head? = some (.answered k (.ok a))) ∧
      (firstValue? before k = none → after.head? = some (.began k))
  | .began k => before.getLast? = some (.asked k) ∧ firstValue? before k = none
  | .ended k outcome => (computing before).head? = some k ∧ firstValue? before k = none ∧
      after.head? = some (.answered k outcome)
  | .answered k outcome => outcome.toOption = firstValue? before k ∧
      (before.getLast? = some (.asked k) ∨ before.getLast? = some (.ended k outcome))
  | .looked k value? => value? = firstValue? before k
  | .counted n => n = (returnedKeys before).length

/-- What comes still later makes no difference. -/
theorem Owed.append {before after : List (MemoEvent κ α)} (h : Owed before after e)
    (later : List (MemoEvent κ α)) : Owed before (after ++ later) e := by
  have hhead {x : MemoEvent κ α} (hx : after.head? = some x) :
      (after ++ later).head? = some x := by
    rw [List.head?_append, hx]
    rfl
  cases e with
  | asked k => exact ⟨fun a ha => hhead (h.1 a ha), fun hnone => hhead (h.2 hnone)⟩
  | ended k outcome => exact ⟨h.1, h.2.1, hhead h.2.2⟩
  | began k => exact h
  | answered k outcome => exact h
  | looked k value? => exact h
  | counted n => exact h

/-- Every event of a list is as it is owed. -/
def AllOwed (es : List (MemoEvent κ α)) : Prop :=
  ∀ before e after, es = before ++ e :: after → Owed before after e

/-- More events, given what is owed at each of them. -/
theorem AllOwed.append {fs : List (MemoEvent κ α)} (h : AllOwed es)
    (hnew : ∀ before e after, fs = before ++ e :: after → Owed (es ++ before) after e) :
    AllOwed (es ++ fs) := by
  intro before e after heq
  rcases List.append_eq_append_iff.1 heq with ⟨before', rfl, hfs⟩ | ⟨after', hes, hrest⟩
  · exact hnew before' e after hfs
  · rcases after' with _ | ⟨e', after'⟩
    · rw [List.append_nil] at hes
      have := hnew [] e after hrest.symm
      rwa [hes, List.append_nil] at this
    · rw [List.cons_append, List.cons.injEq] at hrest
      obtain ⟨rfl, rfl⟩ := hrest
      exact (h before e after' hes).append fs

/-- One more event that is as it is owed. -/
theorem AllOwed.append_one {x : MemoEvent κ α} (h : AllOwed es) (hx : Owed es [] x) :
    AllOwed (es ++ [x]) := by
  refine h.append fun before e after hsplit => ?_
  rcases before with _ | ⟨b, before⟩
  · cases hsplit
    rwa [List.append_nil]
  · cases before <;> cases hsplit

/-- Two more events, the first one of which is owed because of the second. -/
theorem AllOwed.append_two {x y : MemoEvent κ α} (h : AllOwed es) (hx : Owed es [y] x)
    (hy : Owed (es ++ [x]) [] y) : AllOwed (es ++ [x, y]) := by
  refine h.append fun before e after hsplit => ?_
  rcases before with _ | ⟨b, _ | ⟨b', before⟩⟩
  · cases hsplit
    rwa [List.append_nil]
  · cases hsplit
    exact hy
  · cases before <;> cases hsplit

/-- At every event of a lawful list the table did as it owes. -/
theorem Lawful.owed (h : Lawful es) : AllOwed es := by
  induction h with
  | start =>
    intro before e after h
    cases before <;> cases h
  | looked _ k ih => exact ih.append_one rfl
  | counted _ ih => exact ih.append_one rfl
  -- a request and its answer come together, so the request is owed its answer at once
  | @hit es k a _ hvalue ih =>
    refine ih.append_two ⟨fun b hb => ?_, fun hnone => ?_⟩ ⟨?_, .inl (by simp)⟩
    · rw [hvalue] at hb
      cases hb
      rfl
    · rw [hvalue] at hnone
      cases hnone
    · rw [firstValue?_concat_of_none rfl, hvalue]
      rfl
  -- a request without a value, and the function that is run for it
  | @began es k _ hvalue ih =>
    refine ih.append_two ⟨fun b hb => ?_, fun _ => rfl⟩ ⟨by simp, ?_⟩
    · rw [hvalue] at hb
      cases hb
    · rw [firstValue?_concat_of_none rfl, hvalue]
  -- only here a key can get its first value
  | @ended es k _ hbusy hvalue outcome ih =>
    refine ih.append_two ⟨hbusy, hvalue, rfl⟩ ⟨?_, .inr (by simp)⟩
    cases outcome with
    | error f =>
      rw [firstValue?_concat_of_none rfl, hvalue]
      rfl
    | ok a =>
      rw [firstValue?_concat_ended, hvalue, if_pos rfl]
      rfl

/-- Once a function for a key returned, none is run for it again, and its value is what is given
and found. -/
theorem AllOwed.settled {before after : List (MemoEvent κ α)} (h : AllOwed (before ++ after))
    (hvalue : firstValue? before k = some a) : .began k ∉ after ∧
      (∀ outcome, .ended k outcome ∉ after) ∧
      (∀ outcome, .answered k outcome ∈ after → outcome = .ok a) ∧
      ∀ value?, .looked k value? ∈ after → value? = some a := by
  -- each later event was owed at its time, and the value was there by then
  have hlater {e : MemoEvent κ α} (he : e ∈ after) :
      ∃ before' after', Owed before' after' e ∧ firstValue? before' k = some a := by
    obtain ⟨fs, gs, rfl⟩ := List.append_of_mem he
    exact ⟨before ++ fs, gs, h (before ++ fs) e gs (by simp), firstValue?_append_of_some hvalue⟩
  refine ⟨fun he => ?_, fun outcome he => ?_, fun outcome he => ?_, fun value? he => ?_⟩
  · obtain ⟨before', after', howed, hsome⟩ := hlater he
    rw [howed.2] at hsome
    cases hsome
  · obtain ⟨before', after', howed, hsome⟩ := hlater he
    rw [howed.2.1] at hsome
    cases hsome
  · obtain ⟨before', after', howed, hsome⟩ := hlater he
    have hto := howed.1.trans hsome
    cases outcome with
    | error f => cases hto
    | ok b =>
      cases hto
      rfl
  · obtain ⟨before', after', howed, hsome⟩ := hlater he
    exact howed.trans hsome

end FirstValue

end QueryViews
