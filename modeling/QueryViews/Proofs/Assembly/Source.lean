import QueryViews.Assembly.Source
import Mathlib.Data.List.Basic
import Mathlib.Data.List.Induction
import Mathlib.Data.List.Nodup
import Mathlib.Logic.Relation

/-!
# Candidates

The candidates of a source are the assemblies that it lists, without those that come behind another
one of their name (`firstOfNames`). So one that is listed again behind its name is not seen
(`firstOfEachName_insert`), and one that is listed again in front of it takes the place of the one
that was there (`firstOfEachName_insert_perm`).

What the entry refers to is kept from the first time that it answers. Scans before that fault, as
the entry does, and all scans from then on find the same candidates (`DefaultSource.scans_eq`).
-/

namespace QueryViews

variable {α ω : Type} {name : α → String}

/-! ## The first of each name -/

section FirstOfEachName

variable {a b : α} {l r : List α} {seen seen' : List String}

/-- Neither the order in which names were seen matters, nor how often. -/
theorem firstOfEachName_congr (l : List α) (h : ∀ n, n ∈ seen ↔ n ∈ seen') :
    firstOfEachName name seen l = firstOfEachName name seen' l := by
  induction l generalizing seen seen' with
  | nil => rfl
  | cons a l ih =>
    have hcons : ∀ n, n ∈ name a :: seen ↔ n ∈ name a :: seen' := fun n => by
      rw [List.mem_cons, List.mem_cons, h n]
    simp only [firstOfEachName, h, ih h, ih hcons]

/-- Behind a list, its names were seen. -/
theorem firstOfEachName_append (seen : List String) (l r : List α) :
    firstOfEachName name seen (l ++ r) =
      firstOfEachName name seen l ++ firstOfEachName name (l.map name ++ seen) r := by
  induction l generalizing seen with
  | nil => rfl
  | cons a l ih =>
    rw [List.cons_append, firstOfEachName, firstOfEachName, List.map_cons, List.cons_append]
    split
    next h =>
      have hseen : ∀ n, n ∈ l.map name ++ seen ↔ n ∈ name a :: (l.map name ++ seen) := fun n => by
        rw [List.mem_cons, or_iff_right_of_imp]
        rintro rfl
        exact List.mem_append_right _ h
      rw [ih, firstOfEachName_congr r hseen]
    next h =>
      have hseen : ∀ n, n ∈ l.map name ++ name a :: seen ↔ n ∈ name a :: (l.map name ++ seen) :=
        fun n => List.perm_middle.mem_iff
      rw [ih, List.cons_append, firstOfEachName_congr r hseen]

/-- What comes behind its name is not seen. -/
theorem firstOfEachName_insert (r : List α) (h : name a ∈ l.map name) :
    firstOfEachName name [] (l ++ a :: r) = firstOfEachName name [] (l ++ r) := by
  rw [firstOfEachName_append, firstOfEachName_append, firstOfEachName,
    if_pos (List.mem_append_left _ h)]

/-- The first one of a name could as well be in front. -/
theorem firstOfEachName_perm_cons {n : String} (hseen : n ∉ seen)
    (hb : l.find? (name · = n) = some b) :
    (firstOfEachName name seen l).Perm (b :: firstOfEachName name (n :: seen) l) := by
  induction l generalizing seen with
  | nil => cases hb
  | cons c l ih =>
    rw [firstOfEachName, firstOfEachName]
    by_cases hc : name c = n
    · rw [List.find?_cons_of_pos (by simpa using hc)] at hb
      cases hb
      subst hc
      rw [if_neg hseen, if_pos List.mem_cons_self]
    · rw [List.find?_cons_of_neg (by simpa using hc)] at hb
      by_cases hmem : name c ∈ seen
      · rw [if_pos hmem, if_pos (List.mem_cons_of_mem n hmem)]
        exact ih hseen hb
      · rw [if_neg hmem, if_neg fun h => (List.mem_cons.1 h).elim hc hmem]
        -- in which order the names were seen does not matter
        have hswap : firstOfEachName name (n :: name c :: seen) l =
            firstOfEachName name (name c :: n :: seen) l :=
          firstOfEachName_congr l fun _ => (List.Perm.swap _ _ _).mem_iff
        have hnew : n ∉ name c :: seen := List.not_mem_cons_of_ne_of_not_mem (Ne.symm hc) hseen
        exact ((ih hnew hb).cons c).trans (hswap ▸ .swap b c _)

/-- What comes in front of the first one of its name takes the place of that one. -/
theorem firstOfEachName_insert_perm (h : name a ∉ l.map name)
    (hb : r.find? (name · = name a) = some b) :
    ∃ rest, firstOfEachName name [] (l ++ a :: r) = firstOfEachName name [] l ++ a :: rest ∧
      (firstOfEachName name [] (l ++ r)).Perm (firstOfEachName name [] l ++ b :: rest) := by
  have hseen : name a ∉ l.map name ++ [] := by rwa [List.append_nil]
  refine ⟨firstOfEachName name (name a :: (l.map name ++ [])) r, ?_, ?_⟩
  · rw [firstOfEachName_append, firstOfEachName, if_neg hseen]
  · rw [firstOfEachName_append]
    exact (firstOfEachName_perm_cons hseen hb).append_left _

end FirstOfEachName

/-! ## The first places -/

/-- At a place in a list is the first one of its name. -/
def FirstAt (name : α → String) (l : List α) (i : Nat) : Prop :=
  ∃ a, l[i]? = some a ∧ ∀ b ∈ l.take i, name b ≠ name a

/-- The list has what is first of its name in another one, in the order of that one: the elements at
the first places. -/
structure FirstOfNames (name : α → String) (listed firsts : List α) : Prop where
  nodup : (firsts.map name).Nodup
  names : ∀ n, n ∈ firsts.map name ↔ n ∈ listed.map name
  places : ∃ places : List Nat, places.Pairwise (· < ·) ∧
    (∀ i, i ∈ places ↔ FirstAt name listed i) ∧ places.map (listed[·]?) = firsts.map some

section FirstPlaces

variable {a : α} {l firsts : List α} {i : Nat}

/-- A first place is one in the list. -/
theorem FirstAt.lt (h : FirstAt name l i) : i < l.length := by
  obtain ⟨a, ha, -⟩ := h
  exact (List.getElem?_eq_some_iff.1 ha).1

/-- The places in a longer list: those before, and the last one if its name is new. -/
theorem firstAt_append_singleton :
    FirstAt name (l ++ [a]) i ↔ FirstAt name l i ∨ i = l.length ∧ name a ∉ l.map name := by
  rcases Nat.lt_trichotomy i l.length with hi | rfl | hi
  · rw [or_iff_left fun h => Nat.ne_of_lt hi h.1, FirstAt, List.getElem?_append_left hi,
      List.take_append_of_le_length (Nat.le_of_lt hi)]
    exact .rfl
  · rw [or_iff_right fun h => Nat.lt_irrefl _ h.lt, FirstAt, List.getElem?_concat_length,
      List.take_left]
    simp only [Option.some.injEq, exists_eq_left', List.mem_map, not_exists, not_and, true_and]
  · have hlength : (l ++ [a]).length ≤ i := by
      rw [List.length_append]
      exact hi
    refine ⟨fun h => absurd h.lt (Nat.not_lt.2 hlength), ?_⟩
    rintro (h | h)
    · exact absurd h.lt (Nat.lt_asymm hi)
    · exact absurd h.1 (Nat.ne_of_gt hi)

/-- One that comes behind its name is not among the first ones. -/
theorem FirstOfNames.pass (h : FirstOfNames name l firsts) (ha : name a ∈ l.map name) :
    FirstOfNames name (l ++ [a]) firsts := by
  obtain ⟨hnodup, hnames, places, hsorted, hplaces, hfirsts⟩ := h
  refine ⟨hnodup, fun n => ?_, places, hsorted, fun i => ?_, ?_⟩
  · rw [hnames, List.map_append, List.mem_append, or_iff_left_of_imp]
    intro hn
    obtain rfl := List.mem_singleton.1 hn
    exact ha
  · rw [hplaces, firstAt_append_singleton, or_iff_left fun h => h.2 ha]
  · rw [← hfirsts]
    exact List.map_congr_left fun i hi => List.getElem?_append_left ((hplaces i).1 hi).lt

/-- One with a new name is the last of the first ones. -/
theorem FirstOfNames.add (h : FirstOfNames name l firsts) (ha : name a ∉ l.map name) :
    FirstOfNames name (l ++ [a]) (firsts ++ [a]) := by
  obtain ⟨hnodup, hnames, places, hsorted, hplaces, hfirsts⟩ := h
  have hlt : ∀ i ∈ places, i < l.length := fun i hi => ((hplaces i).1 hi).lt
  refine ⟨?_, fun n => ?_, places ++ [l.length], ?_, fun i => ?_, ?_⟩
  · rw [List.map_append, List.map_singleton, List.nodup_append']
    refine ⟨hnodup, List.nodup_singleton _, ?_⟩
    exact List.disjoint_singleton.2 fun h => ha ((hnames _).1 h)
  · rw [List.map_append, List.map_append, List.mem_append, List.mem_append, hnames]
  · refine List.pairwise_append.2 ⟨hsorted, List.pairwise_singleton _ _, fun i hi j hj => ?_⟩
    obtain rfl := List.mem_singleton.1 hj
    exact hlt i hi
  · rw [List.mem_append, List.mem_singleton, hplaces, firstAt_append_singleton, and_iff_left ha]
  · rw [List.map_append, List.map_append, ← hfirsts, List.map_singleton, List.map_singleton,
      List.getElem?_concat_length]
    exact congrArg (· ++ _)
      (List.map_congr_left fun i hi => List.getElem?_append_left (hlt i hi))

/-- What is first of its name is what is found. -/
theorem firstOfNames (name : α → String) (l : List α) :
    FirstOfNames name l (firstOfEachName name [] l) := by
  induction l using List.reverseRecOn with
  | nil =>
    refine ⟨.nil, fun _ => .rfl, [], .nil, fun i => ⟨nofun, ?_⟩, rfl⟩
    rintro ⟨a, ha, -⟩
    cases ha
  | append_singleton l a ih =>
    rw [firstOfEachName_append, firstOfEachName, firstOfEachName, firstOfEachName, List.append_nil]
    split
    next h => exact List.append_nil _ ▸ ih.pass h
    next h => exact ih.add h

end FirstPlaces

/-! ## Scans -/

namespace DefaultSource

variable {source : DefaultSource α} {w : ω} {references : α → Act ω Fault (List α)}

/-- The entry and what it refers to. -/
def closureOf (entry : Option α) (others : List α) : List α := entry.elim [] (· :: others)

/-- What the source lists if the entry refers to these: what is known, the entry, and those. -/
def listed (source : DefaultSource α) (others : List α) : List α :=
  source.known ++ closureOf source.entry others

/-- The candidates if the entry refers to these. -/
def candidates (source : DefaultSource α) (name : α → String) (others : List α) : List α :=
  firstOfEachName name [] (source.listed others)

/-- What the entry would say that it refers to; nothing if there is no entry. -/
def answer (source : DefaultSource α) (references : α → Act ω Fault (List α)) (w : ω) :
    Except Fault (List α) :=
  source.entry.elim (.ok []) fun entry => (references entry w).1

/-- The outcomes of scans one after another. What is kept is kept from scan to scan; the entry may
answer in a new way each time, and the world may be in any state. -/
def scans (source : DefaultSource α) (name : α → String) :
    EntryClosure α → List ((α → Act ω Fault (List α)) × ω) → List (Except Fault (List α))
  | _, [] => []
  | kept, (references, w) :: later =>
    let (outcome, kept, _) := source.scan name references (kept, w)
    outcome :: source.scans name kept later

/-- The first scan in which the entry answers keeps the answer. -/
theorem scan_none_of_ok (name : α → String) {others : List α}
    (h : source.answer references w = .ok others) :
    ∃ w', source.scan name references (none, w) =
      (.ok (source.candidates name others), some (closureOf source.entry others), w') := by
  rcases source with ⟨known, _ | entry⟩
  · exact ⟨w, rfl⟩
  · rcases hrun : references entry w with ⟨outcome, w'⟩
    obtain rfl : outcome = .ok others := by rw [← h, answer, Option.elim, hrun]
    have hclosure : entryClosure ⟨known, some entry⟩ references (none, w) =
        (.ok (entry :: others), some (entry :: others), w') := by simp only [entryClosure, hrun]
    exact ⟨w', Act.bind_apply_ok hclosure⟩

/-- A scan in which the entry faults keeps nothing. -/
theorem scan_none_of_error (name : α → String) {f : Fault}
    (h : source.answer references w = .error f) :
    ∃ w', source.scan name references (none, w) = (.error f, none, w') := by
  rcases source with ⟨known, _ | entry⟩
  · cases h
  · rcases hrun : references entry w with ⟨outcome, w'⟩
    obtain rfl : outcome = .error f := by rw [← h, answer, Option.elim, hrun]
    have hclosure : entryClosure ⟨known, some entry⟩ references (none, w) =
        (.error f, none, w') := by simp only [entryClosure, hrun]
    exact ⟨w', Act.bind_apply_error hclosure⟩

/-- Once the entry has answered it is not asked any more. -/
theorem scans_some (others : List α) (asked : List ((α → Act ω Fault (List α)) × ω)) :
    source.scans name (some (closureOf source.entry others)) asked =
      List.replicate asked.length (.ok (source.candidates name others)) := by
  induction asked with
  | nil => rfl
  | cons ask later ih => exact congrArg (.ok (source.candidates name others) :: ·) ih

/-- Scans fault as long as the entry does. From the first time that it answers, all of them find the
candidates by that answer, whatever it answers later. -/
theorem scans_eq (name : α → String) {others : List α} {faults : List Fault}
    {later : List (Except Fault (List α))} {asked : List ((α → Act ω Fault (List α)) × ω)}
    (h : asked.map (fun ask => source.answer ask.1 ask.2) =
      faults.map .error ++ .ok others :: later) :
    source.scans name none asked =
      faults.map .error ++
        List.replicate (later.length + 1) (.ok (source.candidates name others)) := by
  induction faults generalizing asked with
  | nil =>
    obtain ⟨ask, asked, rfl, hask, rfl⟩ := List.map_eq_cons_iff.1 h
    obtain ⟨w', hscan⟩ := scan_none_of_ok name hask
    rw [scans, hscan, List.length_map]
    exact congrArg (_ :: ·) (scans_some others asked)
  | cons f faults ih =>
    obtain ⟨ask, asked, rfl, hask, hrest⟩ := List.map_eq_cons_iff.1 h
    obtain ⟨w', hscan⟩ := scan_none_of_error name hask
    rw [scans, hscan]
    exact congrArg (_ :: ·) (ih hrest)

end DefaultSource

/-! ## Registering again -/

section Again

variable {β : Type} {answer : α → β}

/-- Between these there is one of the name of another one: before its place, or else after it, and
then the first one there answers alike. -/
def Repeats (name : α → String) (answer : α → β) (before after : List α) (a : α) : Prop :=
  name a ∈ before.map name ∨ ∃ b, after.find? (name · = name a) = some b ∧ answer b = answer a

/-- What the first ones answer is the same, with one that repeats another one and without it. -/
theorem Repeats.perm {before after : List α} {a : α} (h : Repeats name answer before after a) :
    ((firstOfEachName name [] (before ++ after)).map answer).Perm
      ((firstOfEachName name [] (before ++ a :: after)).map answer) := by
  by_cases hbefore : name a ∈ before.map name
  · rw [firstOfEachName_insert after hbefore]
  · obtain ⟨b, hb, hanswer⟩ := h.resolve_left hbefore
    obtain ⟨rest, heq, hperm⟩ := firstOfEachName_insert_perm hbefore hb
    rw [heq]
    refine (hperm.map answer).trans (.of_eq ?_)
    rw [List.map_append, List.map_append, List.map_cons, List.map_cons, hanswer]

namespace DefaultSource

/-- An assembly is registered once more under its name: as known, or as something that the entry
refers to. -/
inductive RegisteredAgain (name : α → String) (answer : α → β) :
    DefaultSource α × List α → DefaultSource α × List α → Prop
  | known (before after : List α) (entry : Option α) (others : List α) (a : α)
    (h : Repeats name answer before (after ++ closureOf entry others) a) :
    RegisteredAgain name answer (⟨before ++ after, entry⟩, others)
      (⟨before ++ a :: after, entry⟩, others)
  | reference (known : List α) (entry : α) (before after : List α) (a : α)
    (h : Repeats name answer (known ++ entry :: before) after a) :
    RegisteredAgain name answer (⟨known, some entry⟩, before ++ after)
      (⟨known, some entry⟩, before ++ a :: after)

variable {p p' : DefaultSource α × List α}

/-- One more registration changes at most the order of what the candidates answer. -/
theorem RegisteredAgain.perm (h : RegisteredAgain name answer p p') :
    ((p.1.candidates name p.2).map answer).Perm ((p'.1.candidates name p'.2).map answer) := by
  cases h with
  | known before after entry others a h =>
    simp only [candidates, listed, List.append_assoc, List.cons_append]
    exact h.perm
  | reference known entry before after a h =>
    simp only [candidates, listed, closureOf, Option.elim, ← List.cons_append, ← List.append_assoc]
    exact h.perm

/-- However often assemblies are registered again, the candidates answer the same. -/
theorem perm_of_registered_again (h : Relation.ReflTransGen (RegisteredAgain name answer) p p') :
    ((p.1.candidates name p.2).map answer).Perm ((p'.1.candidates name p'.2).map answer) := by
  induction h with
  | refl => exact .refl _
  | tail _ h ih => exact ih.trans h.perm

end DefaultSource

end Again

end QueryViews
