import QueryViews.Fault
import Mathlib.Control.Traversable.Instances
import Mathlib.Data.List.Permutation
import Mathlib.Data.Multiset.MapFold

/-!
# Outcomes

How an outcome of a composed look-up comes about: a sequence succeeds if each step does, a
traversal if each element does (`mapM_eq_ok_iff`), a selection likewise (`mem_of_select_eq_ok`).

Two look-ups **agree** (`Agree`) when both fail or both succeed with related results. Why one fails
is not compared: a failure names an id, and ids may differ where what they name does not.
Agreement goes through sequences, and through traversals of collections that are the same up to
order.
-/

namespace QueryViews

variable {ε ε' α β γ δ : Type}

/-! ## What success takes -/

/-- A sequence succeeds if both steps do. -/
theorem bind_eq_ok_iff {x : Except ε α} {f : α → Except ε β} {b : β} :
    (x >>= f) = .ok b ↔ ∃ a, x = .ok a ∧ f a = .ok b := by
  cases x with
  | error e => exact ⟨nofun, nofun⟩
  | ok a => exact ⟨fun h => ⟨a, rfl, h⟩, fun ⟨_, ha, h⟩ => by cases ha; exact h⟩

/-- What is made of a value is there if the value is. -/
theorem map_eq_ok_iff {x : Except ε α} {f : α → β} {b : β} :
    (f <$> x) = .ok b ↔ ∃ a, x = .ok a ∧ f a = b := by
  cases x with
  | error e => exact ⟨nofun, nofun⟩
  | ok a =>
    refine ⟨fun h => ⟨a, rfl, Except.ok.inj h⟩, fun ⟨_, ha, h⟩ => ?_⟩
    cases ha
    exact congrArg _ h

/-- A traversal gives what each element gives, in their order. -/
theorem mapM_eq_ok_iff {f : α → Except ε β} {l : List α} {r : List β} :
    l.mapM f = .ok r ↔ List.Forall₂ (fun a b => f a = .ok b) l r := by
  induction l generalizing r with
  | nil =>
    rw [List.mapM_nil, List.forall₂_nil_left_iff]
    exact ⟨fun h => (Except.ok.inj h).symm, fun h => h ▸ rfl⟩
  | cons a l ih =>
    rw [List.mapM_cons, bind_eq_ok_iff, List.forall₂_cons_left_iff]
    refine exists_congr fun b => ?_
    rw [bind_eq_ok_iff]
    constructor
    · rintro ⟨ha, bs, hl, hr⟩
      exact ⟨bs, ha, ih.1 hl, (Except.ok.inj hr).symm⟩
    · rintro ⟨bs, ha, hl, rfl⟩
      exact ⟨ha, bs, ih.2 hl, rfl⟩

/-- The same for look-ups that find something or nothing. -/
theorem mapM_eq_some_iff {f : α → Option β} {l : List α} {r : List β} :
    l.mapM f = some r ↔ List.Forall₂ (fun a b => f a = some b) l r := by
  induction l generalizing r with
  | nil =>
    rw [List.mapM_nil, List.forall₂_nil_left_iff]
    exact ⟨fun h => (Option.some.inj h).symm, fun h => h ▸ rfl⟩
  | cons a l ih =>
    rw [List.mapM_cons, Option.bind_eq_bind, Option.bind_eq_some_iff, List.forall₂_cons_left_iff]
    refine exists_congr fun b => ?_
    rw [Option.bind_eq_bind, Option.bind_eq_some_iff]
    constructor
    · rintro ⟨ha, bs, hl, hr⟩
      exact ⟨bs, ha, ih.1 hl, (Option.some.inj hr).symm⟩
    · rintro ⟨bs, ha, hl, rfl⟩
      exact ⟨ha, bs, ih.2 hl, rfl⟩

/-- What is found at a place of a list is one of its elements. -/
theorem mem_of_found {l : List α} {index : Nat} {f : Fault} {a : α}
    (h : found l[index]? f = .ok a) : a ∈ l :=
  List.mem_of_getElem? (found_eq_ok_iff.1 h)

/-- What an element of the first list corresponds to. -/
theorem exists_mem_of_forall₂ {R : α → β → Prop} {l : List α} {r : List β}
    (h : List.Forall₂ R l r) {a : α} (ha : a ∈ l) : ∃ b ∈ r, R a b := by
  induction h with
  | nil => cases ha
  | cons hab _ ih =>
    rcases List.mem_cons.1 ha with rfl | ha
    · exact ⟨_, List.mem_cons_self, hab⟩
    · obtain ⟨b, hb, hR⟩ := ih ha
      exact ⟨b, List.mem_cons_of_mem _ hb, hR⟩

/-- Where an element of the result comes from. -/
theorem exists_of_mem_mapM {f : α → Except ε β} {l : List α} {r : List β} {b : β}
    (h : l.mapM f = .ok r) (hb : b ∈ r) : ∃ a ∈ l, f a = .ok b :=
  exists_mem_of_forall₂ (mapM_eq_ok_iff.1 h).flip hb

/-- What an element of the list becomes. -/
theorem exists_mem_of_mapM {f : α → Except ε β} {l : List α} {r : List β} {a : α}
    (h : l.mapM f = .ok r) (ha : a ∈ l) : ∃ b ∈ r, f a = .ok b :=
  exists_mem_of_forall₂ (mapM_eq_ok_iff.1 h) ha

/-- Elements that correspond to something of one name are the same, if the name is there once. -/
theorem eq_of_count_le_one [DecidableEq γ] {R : α → β → Prop} {l : List α} {r : List β}
    (h : List.Forall₂ R l r) {name : β → γ} {n : γ} (hcount : (r.map name).count n ≤ 1) {a a' : α}
    (ha : a ∈ l) (ha' : a' ∈ l) (hn : ∀ b, R a b → name b = n) (hn' : ∀ b, R a' b → name b = n) :
    a = a' := by
  induction h with
  | nil => cases ha
  | @cons x y l r hxy hl ih =>
    -- nothing behind the first element has the name, if the first one has it
    have hfirst (hy : name y = n) {z : α} (hz : z ∈ l) : ¬ ∀ b, R z b → name b = n := by
      intro hname
      obtain ⟨b, hb, hzb⟩ := exists_mem_of_forall₂ hl hz
      rw [List.map_cons, hy, List.count_cons_self] at hcount
      exact absurd (List.count_pos_iff.2 (List.mem_map.2 ⟨b, hb, hname b hzb⟩)) (by omega)
    rcases List.mem_cons.1 ha with rfl | hl₁
    · rcases List.mem_cons.1 ha' with rfl | hl₂
      · rfl
      · exact absurd hn' (hfirst (hn y hxy) hl₂)
    · rcases List.mem_cons.1 ha' with rfl | hl₂
      · exact absurd hn (hfirst (hn' y hxy) hl₁)
      · refine ih (le_trans ?_ hcount) hl₁ hl₂
        rw [List.map_cons]
        exact List.count_le_count_cons

/-- What each step of a traversal leaves the same is the same, element by element. -/
theorem map_eq_of_mapM {f : α → Except ε β} {l : List α} {r : List β} {g : α → γ} {g' : β → γ}
    (h : l.mapM f = .ok r) (hg : ∀ a b, f a = .ok b → g' b = g a) : r.map g' = l.map g := by
  rw [mapM_eq_ok_iff] at h
  induction h with
  | nil => rfl
  | cons hab _ ih => rw [List.map_cons, List.map_cons, ih, hg _ _ hab]

/-- A traversal succeeds if each element does. -/
theorem exists_mapM_eq_ok {f : α → Except ε β} {l : List α} (h : ∀ a ∈ l, ∃ b, f a = .ok b) :
    ∃ r, l.mapM f = .ok r := by
  induction l with
  | nil => exact ⟨[], rfl⟩
  | cons a l ih =>
    obtain ⟨b, hb⟩ := h a (by simp)
    obtain ⟨bs, hbs⟩ := ih fun x hx => h x (by simp [hx])
    exact ⟨b :: bs, by rw [List.mapM_cons, hb, hbs]; rfl⟩

/-- A traversal succeeds if each element does. -/
theorem exists_mapM_eq_ok_iff {f : α → Except ε β} {l : List α} :
    (∃ r, l.mapM f = .ok r) ↔ ∀ a ∈ l, ∃ b, f a = .ok b := by
  refine ⟨fun ⟨r, hr⟩ a ha => ?_, exists_mapM_eq_ok⟩
  obtain ⟨b, -, hb⟩ := exists_mem_of_mapM hr ha
  exact ⟨b, hb⟩

/-- A sequence succeeds, with whatever value, if both steps do. -/
theorem exists_bind_eq_ok_iff {x : Except ε α} {f : α → Except ε β} :
    (∃ b, (x >>= f) = .ok b) ↔ ∃ a, x = .ok a ∧ ∃ b, f a = .ok b := by
  simp only [bind_eq_ok_iff]
  rw [exists_comm]
  simp only [exists_and_left]

instance decidableExistsOk (x : Except ε α) : Decidable (∃ a, x = .ok a) :=
  match x with
  | .ok a => isTrue ⟨a, rfl⟩
  | .error _ => isFalse nofun

theorem exists_pure_eq_ok (a : α) : ∃ b, (pure a : Except ε α) = .ok b := ⟨a, rfl⟩

/-- A place of a list is there exactly if it is not behind the end. -/
theorem exists_found_iff {l : List α} {i : Nat} {f : Fault} :
    (∃ a, found l[i]? f = .ok a) ↔ i < l.length := by
  simp only [found_eq_ok_iff]
  exact ⟨fun ⟨_, h⟩ => (List.getElem?_eq_some_iff.1 h).1,
    fun h => ⟨l[i], List.getElem?_eq_getElem h⟩⟩

/-- A check of a list passes if that of each element does. -/
theorem forM_eq_ok_iff {f : α → Except ε Unit} {l : List α} :
    l.forM f = .ok () ↔ ∀ a ∈ l, f a = .ok () := by
  induction l with
  | nil => exact ⟨nofun, fun _ => rfl⟩
  | cons a l ih =>
    change (f a >>= fun _ => l.forM f) = .ok () ↔ _
    rw [bind_eq_ok_iff, List.forall_mem_cons, ← ih]
    exact ⟨fun ⟨_, ha, hl⟩ => ⟨ha, hl⟩, fun ⟨ha, hl⟩ => ⟨(), ha, hl⟩⟩

/-- A traversal that fails ends as it does at one of the elements. -/
theorem exists_of_forM_ne_ok {f : α → Except ε Unit} {l : List α} (h : l.forM f ≠ .ok ()) :
    ∃ a ∈ l, f a ≠ .ok () ∧ l.forM f = f a := by
  induction l with
  | nil => exact absurd rfl h
  | cons a l ih =>
    change (f a >>= fun _ => l.forM f) ≠ .ok () at h
    change ∃ b ∈ a :: l, f b ≠ .ok () ∧ (f a >>= fun _ => l.forM f) = f b
    cases ha : f a with
    | error e => exact ⟨a, List.mem_cons_self, ha ▸ nofun, ha.symm⟩
    | ok _ =>
      rw [ha] at h
      obtain ⟨b, hb, hfails, heq⟩ := ih h
      exact ⟨b, List.mem_cons_of_mem _ hb, hfails, heq⟩

/-- A fold that fails went well up to the element at which it ends. -/
theorem exists_append_of_foldlM_eq_error {f : β → α → Except ε β} {l : List α} {b : β} {e : ε}
    (h : l.foldlM f b = .error e) :
    ∃ before a after b', l = before ++ a :: after ∧ before.foldlM f b = .ok b' ∧
      f b' a = .error e := by
  induction l generalizing b with
  | nil => cases h
  | cons a l ih =>
    rw [List.foldlM_cons] at h
    cases ha : f b a with
    | error e' =>
      rw [ha] at h
      cases h
      exact ⟨[], a, l, b, rfl, rfl, ha⟩
    | ok b₁ =>
      rw [ha] at h
      obtain ⟨before, a', after, b', rfl, hbefore, ha'⟩ := ih h
      refine ⟨a :: before, a', after, b', rfl, ?_, ha'⟩
      rw [List.foldlM_cons, ha]
      exact hbefore

/-- A selection that succeeded tested every element and kept those that passed. -/
theorem mem_of_select_eq_ok {test : α → Except Fault Bool} {l r : List α}
    (h : select test l = .ok r) :
    (∀ a ∈ l, ∃ b, test a = .ok b) ∧ ∀ a, a ∈ r ↔ a ∈ l ∧ test a = .ok true := by
  induction l generalizing r with
  | nil =>
    obtain rfl := Except.ok.inj h
    simp
  | cons a l ih =>
    rw [select, bind_eq_ok_iff] at h
    obtain ⟨passes, ha, h⟩ := h
    obtain ⟨rest, hl, h⟩ := bind_eq_ok_iff.1 h
    obtain ⟨htest, hmem⟩ := ih hl
    obtain rfl := Except.ok.inj h
    refine ⟨List.forall_mem_cons.2 ⟨⟨passes, ha⟩, htest⟩, fun x => ?_⟩
    cases passes with
    | true => by_cases hx : x = a <;> simp [hx, hmem, ha]
    | false => by_cases hx : x = a <;> simp [hx, hmem, ha]

/-- A selection succeeds if each test does. -/
theorem exists_select_eq_ok {test : α → Except Fault Bool} {l : List α}
    (h : ∀ a ∈ l, ∃ b, test a = .ok b) : ∃ r, select test l = .ok r := by
  induction l with
  | nil => exact ⟨[], rfl⟩
  | cons a l ih =>
    obtain ⟨passes, ha⟩ := h a (by simp)
    obtain ⟨rest, hl⟩ := ih fun x hx => h x (by simp [hx])
    exact ⟨if passes then a :: rest else rest, by rw [select, ha, hl]; rfl⟩

/-! ## Agreement -/

/-- Both look-ups fail, or both succeed with related results. -/
inductive Agree (R : α → β → Prop) : Except ε α → Except ε' β → Prop
  | ok {a : α} {b : β} : R a b → Agree R (.ok a) (.ok b)
  | error (e : ε) (e' : ε') : Agree R (.error e) (.error e')

theorem Agree.pure {R : α → β → Prop} {a : α} {b : β} (h : R a b) :
    Agree R (Pure.pure a : Except ε α) (Pure.pure b : Except ε' β) :=
  .ok h

/-- A weaker relation is agreed on too. -/
theorem Agree.mono {R S : α → β → Prop} {x : Except ε α} {y : Except ε' β} (h : Agree R x y)
    (hrs : ∀ a b, R a b → S a b) : Agree S x y := by
  cases h with
  | ok hab => exact .ok (hrs _ _ hab)
  | error e e' => exact .error e e'

/-- What two look-ups that agree are related by is what they gave. -/
theorem Agree.given {R : α → β → Prop} {x : Except ε α} {y : Except ε' β} (h : Agree R x y) :
    Agree (fun a b => R a b ∧ x = .ok a ∧ y = .ok b) x y := by
  cases h with
  | ok hab => exact .ok ⟨hab, rfl, rfl⟩
  | error e e' => exact .error e e'

/-- Agreement goes through a sequence. -/
theorem Agree.bind {R : α → β → Prop} {S : γ → δ → Prop} {x : Except ε α} {y : Except ε' β}
    {f : α → Except ε γ} {g : β → Except ε' δ} (h : Agree R x y)
    (hfg : ∀ a b, R a b → Agree S (f a) (g b)) : Agree S (x >>= f) (y >>= g) := by
  cases h with
  | ok hab => exact hfg _ _ hab
  | error e e' => exact .error e e'

/-- Agreement can be read from the other side. -/
theorem Agree.flip {R : α → β → Prop} {x : Except ε α} {y : Except ε' β} (h : Agree R x y) :
    Agree (fun b a => R a b) y x := by
  cases h with
  | ok hab => exact .ok hab
  | error e e' => exact .error e' e

/-- Agreement can go through a look-up between the two. -/
theorem Agree.trans {R : α → β → Prop} {S : β → γ → Prop} {x : Except ε α} {y : Except ε' β}
    {z : Except ε' γ} (h : Agree R x y) (h' : Agree S y z) :
    Agree (fun a c => ∃ b, R a b ∧ S b c) x z := by
  cases h with
  | ok hab =>
    cases h' with
    | ok hbc => exact .ok ⟨_, hab, hbc⟩
  | error e e' =>
    cases h' with
    | error => exact .error e _

/-- What the second look-up gives where the first one succeeds. -/
theorem Agree.exists_ok {R : α → β → Prop} {x : Except ε α} {y : Except ε' β} (h : Agree R x y)
    {a : α} (ha : x = .ok a) : ∃ b, y = .ok b ∧ R a b := by
  cases h with
  | ok hab =>
    cases ha
    exact ⟨_, rfl, hab⟩
  | error e e' => cases ha

/-- Agreement is success on each side whenever there is success on the other. -/
theorem Agree.of_forall {R : α → β → Prop} {x : Except ε α} {y : Except ε' β}
    (h : ∀ a, x = .ok a → ∃ b, y = .ok b ∧ R a b) (h' : ∀ b, y = .ok b → ∃ a, x = .ok a) :
    Agree R x y := by
  cases x with
  | ok a =>
    obtain ⟨b, rfl, hab⟩ := h a rfl
    exact .ok hab
  | error e =>
    cases y with
    | ok b =>
      obtain ⟨a, ha⟩ := h' b rfl
      cases ha
    | error e' => exact .error e e'

/-! ## Collections up to order -/

/-- The same elements up to `R`, each as often, in whatever order. -/
abbrev Rearranged (R : α → β → Prop) (l : List α) (l' : List β) : Prop :=
  Multiset.Rel R (l : Multiset α) (l' : Multiset β)

/-- A list with the same elements in another order is a permutation. -/
theorem rearranged_eq_iff {l l' : List α} : Rearranged (· = ·) l l' ↔ l.Perm l' := by
  rw [Rearranged, Multiset.rel_eq, Multiset.coe_eq_coe]

/-- The elements of one list, each renamed, in whatever order. -/
theorem rearranged_map_iff {f : α → β} {l : List α} {l' : List β} :
    Rearranged (fun a b => f a = b) l l' ↔ (l.map f).Perm l' := by
  rw [← rearranged_eq_iff, Rearranged, Rearranged, ← Multiset.map_coe, Multiset.rel_map_left]

/-- Element by element is one of the orders. -/
theorem Rearranged.of_forall₂ {R : α → β → Prop} {l : List α} {l' : List β}
    (h : List.Forall₂ R l l') : Rearranged R l l' := by
  induction h with
  | nil => exact .zero
  | cons hab _ ih => exact .cons hab ih

/-- A rearrangement is a relation element by element, and then a permutation. -/
theorem rearranged_iff {R : α → β → Prop} {l : List α} {l' : List β} :
    Rearranged R l l' ↔ ∃ m, List.Forall₂ R l m ∧ m.Perm l' := by
  constructor
  · intro h
    induction l generalizing l' with
    | nil =>
      rw [Rearranged, Multiset.coe_nil, Multiset.rel_zero_left, Multiset.coe_eq_zero] at h
      exact ⟨[], .nil, h ▸ .refl _⟩
    | cons a l ih =>
      -- the partner of the first element stands somewhere in the second list
      rw [Rearranged, ← Multiset.cons_coe, Multiset.rel_cons_left] at h
      obtain ⟨b, t, hab, hl, ht⟩ := h
      induction t using Quot.inductionOn with
      | h t =>
        obtain ⟨m, hm, hmt⟩ := ih hl
        exact ⟨b :: m, .cons hab hm, (hmt.cons b).trans (Multiset.coe_eq_coe.1 ht.symm)⟩
  · rintro ⟨m, hm, hml⟩
    have h := Rearranged.of_forall₂ hm
    rwa [Rearranged, Multiset.coe_eq_coe.2 hml] at h

/-- What is read off related elements is the same up to order. -/
theorem Rearranged.map_perm {R : α → β → Prop} {l : List α} {l' : List β} (h : Rearranged R l l')
    {f : α → γ} {g : β → γ} (hfg : ∀ a b, R a b → f a = g b) : (l.map f).Perm (l'.map g) := by
  obtain ⟨m, hm, hp⟩ := rearranged_iff.1 h
  have hmap : l.map f = m.map g := by
    rw [← List.forall₂_eq_eq_eq, List.forall₂_map_left_iff, List.forall₂_map_right_iff]
    exact hm.imp hfg
  rw [hmap]
  exact hp.map g

/-- Traversals that agree on elements that correspond agree on the lists. -/
theorem Agree.mapM_of_forall₂ {T : α → β → Prop} {R : γ → δ → Prop} {f : α → Except ε γ}
    {g : β → Except ε' δ} {l : List α} {l' : List β} (h : List.Forall₂ T l l')
    (hfg : ∀ a b, T a b → Agree R (f a) (g b)) :
    Agree (List.Forall₂ R) (l.mapM f) (l'.mapM g) := by
  induction h with
  | nil => exact .ok .nil
  | cons hab _ ih =>
    rw [List.mapM_cons, List.mapM_cons]
    exact (hfg _ _ hab).bind fun c d hcd => ih.bind fun cs ds hl => .ok (.cons hcd hl)

/-- The order of a traversal shows only in the order of what it gives. -/
theorem Agree.mapM_of_perm {f : α → Except ε β} {l l' : List α} (h : l.Perm l') :
    Agree List.Perm (l.mapM f) (l'.mapM f) := by
  -- success on one side; the other side follows by turning the permutation around
  have half : ∀ {l l' : List α}, l.Perm l' → ∀ r, l.mapM f = .ok r →
      ∃ r', l'.mapM f = .ok r' ∧ r.Perm r' := by
    intro l l' h r hr
    obtain ⟨r', hr', hp⟩ := List.perm_comp_forall₂ h.symm (mapM_eq_ok_iff.1 hr)
    exact ⟨r', mapM_eq_ok_iff.2 hr', hp.symm⟩
  refine .of_forall (half h) fun r hr => ?_
  obtain ⟨r', hr', -⟩ := half h.symm r hr
  exact ⟨r', hr'⟩

/-- Traversals of collections that are the same up to order agree, element by element. -/
theorem Agree.mapM {T : α → β → Prop} {R : γ → δ → Prop} {f : α → Except ε γ}
    {g : β → Except ε' δ} {l : List α} {l' : List β} (h : Rearranged T l l')
    (hfg : ∀ a b, T a b → Agree R (f a) (g b)) : Agree (Rearranged R) (l.mapM f) (l'.mapM g) := by
  obtain ⟨m, hlm, hml'⟩ := rearranged_iff.1 h
  refine ((Agree.mapM_of_forall₂ hlm hfg).trans (Agree.mapM_of_perm hml')).mono ?_
  rintro r r' ⟨u, hru, hur'⟩
  exact rearranged_iff.2 ⟨u, hru, hur'⟩

end QueryViews
