import QueryViews.Expr.Occurrences
import Mathlib.Data.List.Basic

/-!
# Walks over expressions

A node of an expression stands at a **place**: the way down to it, which says at every step in which
part to go on (`Expr.nodeAt?`). The parts of a reference are the values of its key, so the key has
no place of its own.

A walk meets what is inside an expression before the expression itself, and parts from left to
right; that is an order of places (`Place.Precedes`). The occurrences in an expression are the nodes
at all of its places, in this order and each once (`Expr.exists_met`), and a walk that calls back at
every node hands its state through them (`Expr.walk_eq_foldl`).
-/

namespace QueryViews

/-! ## Places -/

/-- A way down into an expression, as the numbers of the parts that it takes. -/
abbrev Place := List Nat

namespace Place

/-- A walk comes to the first place before the second one: it is further down on the same way, or
the two ways part and it goes on further to the left. -/
def Precedes (p q : Place) : Prop :=
  (∃ below, below ≠ [] ∧ p = q ++ below) ∨
    ∃ (common : Place) (i j : Nat) (p' q' : Place), i < j ∧ p = common ++ i :: p' ∧
      q = common ++ j :: q'

theorem precedes_nil (i : Nat) (p : Place) : Precedes (i :: p) [] :=
  .inl ⟨i :: p, List.cons_ne_nil i p, rfl⟩

/-- A way further to the left comes first. -/
theorem precedes_of_lt {i j : Nat} (h : i < j) (p q : Place) : Precedes (i :: p) (j :: q) :=
  .inr ⟨[], i, j, p, q, h, rfl, rfl⟩

/-- Ways that part further down part with what is in front of both. -/
theorem Precedes.cons {p q : Place} (h : Precedes p q) (i : Nat) :
    Precedes (i :: p) (i :: q) := by
  rcases h with ⟨below, hne, rfl⟩ | ⟨common, j, k, p', q', hlt, rfl, rfl⟩
  · exact .inl ⟨below, hne, rfl⟩
  · exact .inr ⟨i :: common, j, k, p', q', hlt, rfl, rfl⟩

/-- No place comes before itself. -/
theorem Precedes.irrefl {p : Place} : ¬ Precedes p p := by
  rintro (⟨below, hne, h⟩ | ⟨common, i, j, p', q', hlt, rfl, h⟩)
  · exact hne (List.self_eq_append_right.1 h)
  · obtain ⟨rfl, -⟩ := List.cons.inj (List.append_cancel_left h)
    exact Nat.lt_irrefl i hlt

/-- The place in a list of expressions, when another one is put in front of the list. -/
def next : Place → Place := List.modifyHead (· + 1)

/-- What comes first still does, unless it was the list itself that came second. -/
theorem Precedes.next {p q : Place} (h : Precedes p q) (hq : q ≠ []) :
    Precedes p.next q.next := by
  obtain ⟨k, q, rfl⟩ := List.exists_cons_of_ne_nil hq
  rcases h with ⟨below, hne, rfl⟩ | ⟨common, i, j, p', q', hlt, rfl, hq'⟩
  · exact .inl ⟨below, hne, rfl⟩
  · cases common with
    | nil =>
      obtain ⟨rfl, rfl⟩ := List.cons.inj hq'
      exact precedes_of_lt (Nat.succ_lt_succ hlt) _ _
    | cons k' common =>
      obtain ⟨rfl, rfl⟩ := List.cons.inj hq'
      exact .inr ⟨(k + 1) :: common, i, j, p', q', hlt, rfl, rfl⟩

end Place

namespace Expr

/-- What is directly inside an expression, from left to right. -/
def parts : Expr → List Expr
  | .conj es | .record es | .ref _ es | .relationship _ es => es
  | .isNull _ e => [e]
  | .field _ | .isOf _ _ | .constant _ => []

/-- What holds of an expression if it holds of its parts, holds of every expression. -/
@[elab_as_elim]
theorem induction {motive : Expr → Prop}
    (node : ∀ e, (∀ part ∈ e.parts, motive part) → motive e) (e : Expr) : motive e :=
  @Expr.rec motive (fun es => ∀ e ∈ es, motive e) (fun es => node (.conj es))
    (fun id => node (.field id) nofun)
    (fun negated e he => node (.isNull negated e) (List.forall_mem_singleton.2 he))
    (fun only type => node (.isOf only type) nofun) (fun es => node (.record es))
    (fun set key => node (.ref set key)) (fun a ends => node (.relationship a ends))
    (fun value => node (.constant value) nofun) nofun
    (fun _ _ he hes => List.forall_mem_cons.2 ⟨he, hes⟩) e

/-- The node at a place in an expression. -/
def nodeAt? (e : Expr) : Place → Option Expr
  | [] => some e
  | i :: place => e.parts[i]?.bind fun part => part.nodeAt? place

/-- The node at a place in a list of expressions, which is no node itself. -/
def nodeIn? (es : List Expr) : Place → Option Expr
  | [] => none
  | i :: place => es[i]?.bind fun e => e.nodeAt? place

/-- The nodes of something, and the places at which they are met, one after the other: each place
is met once, in order, and none is left out. -/
structure Met (node? : Place → Option Expr) (places : List Place) (nodes : List Expr) : Prop where
  once : places.Nodup
  inOrder : places.Pairwise Place.Precedes
  all : ∀ place, place ∈ places ↔ ∃ e, node? place = some e
  nodes : places.map node? = nodes.map some

/-- What is met in order is met once. -/
theorem Met.of_inOrder {node? : Place → Option Expr} {places : List Place} {nodes : List Expr}
    (inOrder : places.Pairwise Place.Precedes)
    (all : ∀ place, place ∈ places ↔ ∃ e, node? place = some e)
    (hnodes : places.map node? = nodes.map some) : Met node? places nodes where
  once := inOrder.imp fun {p q} h (heq : p = q) => Place.Precedes.irrefl (heq ▸ h)
  inOrder := inOrder
  all := all
  nodes := hnodes

/-! ## Occurrences -/

/-- An expression comes behind what is in its parts. -/
theorem occurrences_eq (e : Expr) : e.occurrences = occurrencesAll e.parts ++ [e] := by
  cases e <;> simp [occurrences, occurrencesAll, parts]

theorem occurrencesAll_eq_flatMap (es : List Expr) :
    occurrencesAll es = es.flatMap occurrences := by
  induction es with
  | nil => rfl
  | cons e es ih => rw [occurrencesAll, ih, List.flatMap_cons]

variable {e : Expr} {es : List Expr} {places places' : List Place} {nodes nodes' : List Expr}

/-- In an empty list nothing is met. -/
theorem met_nil : Met (nodeIn? []) [] [] where
  once := List.nodup_nil
  inOrder := List.Pairwise.nil
  all place := by cases place <;> simp [nodeIn?]
  nodes := rfl

/-- Places in the rest of a list are places in the list. -/
theorem nodeIn?_next (p : Place) : nodeIn? (e :: es) p.next = nodeIn? es p := by
  cases p <;> rfl

/-- First what is met in one expression, then what is met in the others. -/
theorem Met.cons (he : Met e.nodeAt? places nodes) (hes : Met (nodeIn? es) places' nodes') :
    Met (nodeIn? (e :: es)) (places.map (0 :: ·) ++ places'.map Place.next)
      (nodes ++ nodes') := by
  have hne : ∀ q ∈ places', q ≠ [] := by
    rintro q hq rfl
    obtain ⟨x, hx⟩ := (hes.all []).1 hq
    cases hx
  -- the places in the first expression come first, each list of places in its own order
  have hleft : (places.map (0 :: ·)).Pairwise Place.Precedes :=
    he.inOrder.map (0 :: ·) fun _ _ h => h.cons 0
  have hright : (places'.map Place.next).Pairwise Place.Precedes :=
    List.pairwise_map.2 (hes.inOrder.imp_of_mem fun _ hq h => h.next (hne _ hq))
  have hapart : ∀ p ∈ places.map (0 :: ·), ∀ q ∈ places'.map Place.next, Place.Precedes p q := by
    rintro _ hp _ hq
    obtain ⟨p, -, rfl⟩ := List.mem_map.1 hp
    obtain ⟨q, hmem, rfl⟩ := List.mem_map.1 hq
    obtain ⟨i, q, rfl⟩ := List.exists_cons_of_ne_nil (hne q hmem)
    exact Place.precedes_of_lt (Nat.succ_pos i) _ _
  refine .of_inOrder (List.pairwise_append.2 ⟨hleft, hright, hapart⟩) (fun place => ?_) ?_
  · have hshift : place ∈ places'.map Place.next ↔
        ∃ i p, place = (i + 1) :: p ∧ ∃ x, nodeIn? es (i :: p) = some x := by
      rw [List.mem_map]
      constructor
      · rintro ⟨q, hq, rfl⟩
        obtain ⟨i, q, rfl⟩ := List.exists_cons_of_ne_nil (hne q hq)
        exact ⟨i, q, rfl, (hes.all _).1 hq⟩
      · rintro ⟨i, p, rfl, hx⟩
        exact ⟨i :: p, (hes.all _).2 hx, rfl⟩
    rw [List.mem_append, hshift, List.mem_map]
    -- the first step of a way tells whether it leads into the first expression
    match place with
    | [] => simp [nodeIn?]
    | 0 :: place => simp [nodeIn?, he.all]
    | (i + 1) :: place => simp [nodeIn?]
  · rw [List.map_append, List.map_map, List.map_map, List.map_append, ← he.nodes, ← hes.nodes]
    exact congrArg _ (List.map_congr_left fun p _ => nodeIn?_next p)

/-- If each expression of a list is met place by place, the list is. -/
theorem exists_met_in {es : List Expr}
    (h : ∀ e ∈ es, ∃ places, Met e.nodeAt? places e.occurrences) :
    ∃ places, Met (nodeIn? es) places (occurrencesAll es) := by
  induction es with
  | nil => exact ⟨[], met_nil⟩
  | cons e es ih =>
    obtain ⟨places, hplaces⟩ := h e List.mem_cons_self
    obtain ⟨places', hplaces'⟩ := ih fun e he => h e (List.mem_cons_of_mem _ he)
    rw [occurrencesAll]
    exact ⟨_, hplaces.cons hplaces'⟩

/-- Last of all comes the expression itself. -/
theorem Met.parts (h : Met (nodeIn? e.parts) places nodes) :
    Met e.nodeAt? (places ++ [[]]) (nodes ++ [e]) := by
  have hbelow : ∀ i p, nodeIn? e.parts (i :: p) = e.nodeAt? (i :: p) := fun _ _ => rfl
  -- all places below are in some part, and so before the expression itself
  have hne : ∀ p ∈ places, p ≠ [] := by
    rintro p hp rfl
    obtain ⟨x, hx⟩ := (h.all []).1 hp
    cases hx
  refine .of_inOrder (List.pairwise_append.2 ⟨h.inOrder, List.pairwise_singleton _ _, ?_⟩)
    (fun place => ?_) ?_
  · intro p hp q hq
    obtain rfl := List.mem_singleton.1 hq
    obtain ⟨i, p, rfl⟩ := List.exists_cons_of_ne_nil (hne p hp)
    exact Place.precedes_nil i p
  · cases place with
    | nil => simp [nodeAt?]
    | cons i p => simp [h.all, hbelow]
  · rw [List.map_append, List.map_append, ← h.nodes]
    refine congrArg (· ++ _) (List.map_congr_left fun p hp => ?_)
    obtain ⟨i, p, rfl⟩ := List.exists_cons_of_ne_nil (hne p hp)
    exact (hbelow i p).symm

/-- The occurrences in an expression are the nodes at all of its places. -/
theorem exists_met (e : Expr) : ∃ places, Met e.nodeAt? places e.occurrences := by
  induction e using Expr.induction with
  | node e ih =>
    obtain ⟨places, hplaces⟩ := exists_met_in ih
    rw [occurrences_eq]
    exact ⟨_, hplaces.parts⟩

end Expr

/-- The node at a place in a query, in its filter or in what it returns. -/
def Query.nodeAt? (q : Query) : Place → Option Expr := Expr.nodeIn? [q.filter, q.returning]

/-- A query is walked as the list of its filter and what it returns. -/
theorem Query.occurrences_eq (q : Query) :
    q.occurrences = Expr.occurrencesAll [q.filter, q.returning] := by
  rw [occurrences, Expr.occurrencesAll_eq_flatMap, List.flatMap_cons, List.flatMap_singleton]

/-! ## Walks -/

mutual

/-- Calls back at every node, with what the calls before it have made of a state. -/
def Expr.walk {σ : Type} (call : σ → Expr → σ) (state : σ) : Expr → σ
  | .conj es => call (Expr.walkAll call state es) (.conj es)
  | .field f => call state (.field f)
  | .isNull negated e => call (e.walk call state) (.isNull negated e)
  | .isOf only t => call state (.isOf only t)
  | .record es => call (Expr.walkAll call state es) (.record es)
  | .ref set key => call (Expr.walkAll call state key) (.ref set key)
  | .relationship a es => call (Expr.walkAll call state es) (.relationship a es)
  | .constant v => call state (.constant v)

/-- Calls back at every node of several expressions, from left to right. -/
def Expr.walkAll {σ : Type} (call : σ → Expr → σ) (state : σ) : List Expr → σ
  | [] => state
  | e :: es => Expr.walkAll call (e.walk call state) es

end

/-- Calls back at every node of a query, in the filter first. -/
def Query.walk {σ : Type} (call : σ → Expr → σ) (state : σ) (q : Query) : σ :=
  q.returning.walk call (q.filter.walk call state)

section Walk

variable {σ : Type} (call : σ → Expr → σ) (state : σ)

/-- A walk calls back at an expression behind its parts. -/
theorem Expr.walk_eq (e : Expr) :
    e.walk call state = call (walkAll call state e.parts) e := by
  cases e <;> simp [walk, walkAll, parts]

/-- If each walk goes through the occurrences, so does the walk through a list. -/
theorem Expr.walkAll_eq_foldl {es : List Expr}
    (h : ∀ e ∈ es, ∀ state, e.walk call state = e.occurrences.foldl call state) :
    walkAll call state es = (occurrencesAll es).foldl call state := by
  induction es generalizing state with
  | nil => rfl
  | cons e es ih =>
    rw [walkAll, occurrencesAll, List.foldl_append, h e List.mem_cons_self,
      ih _ fun e he => h e (List.mem_cons_of_mem _ he)]

/-- A walk hands its state through the occurrences. -/
theorem Expr.walk_eq_foldl (e : Expr) : e.walk call state = e.occurrences.foldl call state := by
  induction e using Expr.induction generalizing state with
  | node e ih =>
    rw [walk_eq, walkAll_eq_foldl call state ih, occurrences_eq, List.foldl_append]
    rfl

/-- A walk through a query calls back at the occurrences in it, one by one. -/
theorem Query.walk_eq_foldl (q : Query) : q.walk call state = q.occurrences.foldl call state := by
  rw [walk, Expr.walk_eq_foldl, Expr.walk_eq_foldl, occurrences, List.foldl_append]

end Walk

/-- Something is found on a walk exactly if it is among the nodes. -/
theorem foldl_or_eq_any (test : Expr → Bool) (nodes : List Expr) (found : Bool) :
    nodes.foldl (fun found e => found || test e) found = (found || nodes.any test) := by
  induction nodes generalizing found with
  | nil => rw [List.foldl_nil, List.any_nil, Bool.or_false]
  | cons e nodes ih => rw [List.foldl_cons, ih, List.any_cons, Bool.or_assoc]

/-- What is met is what stands at some place. -/
theorem Expr.Met.any_eq_true_iff {node? : Place → Option Expr} {places : List Place}
    {nodes : List Expr} (h : Met node? places nodes) (test : Expr → Bool) :
    nodes.any test = true ↔ ∃ place e, node? place = some e ∧ test e = true := by
  have hmem : ∀ e, e ∈ nodes ↔ ∃ place, node? place = some e := by
    intro e
    have hmap : e ∈ nodes ↔ some e ∈ places.map node? := by simp [h.nodes]
    rw [hmap, List.mem_map]
    exact exists_congr fun place => and_iff_right_of_imp fun hplace => (h.all place).2 ⟨e, hplace⟩
  simp only [List.any_eq_true, hmem]
  exact ⟨fun ⟨e, ⟨place, hplace⟩, he⟩ => ⟨place, e, hplace, he⟩,
    fun ⟨place, e, hplace, he⟩ => ⟨e, ⟨place, hplace⟩, he⟩⟩

/-- **Walks.** The occurrences in an expression are the nodes at all of its places, each once: what
is inside comes before what is around it, and parts come from left to right. In a query the same
holds with the filter to the left of what is returned. A reference comes after the values of its
key, and nothing else comes of the key.

A walk calls back at the occurrences, one after the other, whatever state it carries along. So a
test is passed somewhere on it exactly if it is passed by a node at some place. -/
theorem Query.walk_in_order :
    (∀ e : Expr, ∃ places, Expr.Met e.nodeAt? places e.occurrences) ∧
    (∀ q : Query, (∃ places, Expr.Met q.nodeAt? places q.occurrences) ∧
      q.occurrences = q.filter.occurrences ++ q.returning.occurrences) ∧
    (∀ (set : EntitySetId) (key : List Expr),
      (Expr.ref set key).occurrences = key.flatMap Expr.occurrences ++ [.ref set key]) ∧
    (∀ (σ : Type) (call : σ → Expr → σ) (state : σ),
      (∀ e : Expr, e.walk call state = e.occurrences.foldl call state) ∧
      ∀ q : Query, q.walk call state = q.occurrences.foldl call state) ∧
    ∀ test : Expr → Bool,
      (∀ e : Expr, e.walk (fun found x => found || test x) false = e.anyOccurrence test ∧
        (e.anyOccurrence test = true ↔ ∃ place x, e.nodeAt? place = some x ∧ test x = true)) ∧
      ∀ q : Query, q.walk (fun found x => found || test x) false = q.anyOccurrence test ∧
        (q.anyOccurrence test = true ↔
          ∃ place x, q.nodeAt? place = some x ∧ test x = true) := by
  have hquery (q : Query) : ∃ places, Expr.Met q.nodeAt? places q.occurrences := by
    rw [q.occurrences_eq]
    exact Expr.exists_met_in fun e _ => e.exists_met
  refine ⟨Expr.exists_met, fun q => ⟨hquery q, rfl⟩, fun set key => ?_,
    fun σ call state => ⟨Expr.walk_eq_foldl call state, Query.walk_eq_foldl call state⟩,
    fun test => ⟨fun e => ⟨?_, ?_⟩, fun q => ⟨?_, ?_⟩⟩⟩
  · rw [Expr.occurrences, Expr.occurrencesAll_eq_flatMap]
  · rw [Expr.walk_eq_foldl, foldl_or_eq_any, Bool.false_or, Expr.anyOccurrence]
  · obtain ⟨places, h⟩ := e.exists_met
    exact h.any_eq_true_iff test
  · rw [Query.walk_eq_foldl, foldl_or_eq_any, Bool.false_or, Query.anyOccurrence]
  · obtain ⟨places, h⟩ := hquery q
    exact h.any_eq_true_iff test

end QueryViews
