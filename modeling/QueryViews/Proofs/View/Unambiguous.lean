import QueryViews.Proofs.Schema.Verified
import QueryViews.Proofs.View.Reading
import QueryViews.Proofs.View.Spelling

/-!
# What the text of a view tells

Two queries have the same text exactly if they read the same once ids are written as names, as far
as names are plain (`Schema.PlainNames.text_eq_iff`). So the text tells all but how conjunctions
are nested where each of them has at least two operands and none is tested for null.
-/

namespace QueryViews

/-! ## Rows of lexemes that can be cut -/

namespace Lexeme

/-- A mark may stand in front of anything. -/
theorem isChain_mark_cons (m : Mark) {l : List Lexeme} (h : l.IsChain Before) :
    (.mark m :: l).IsChain Before :=
  h.cons fun next _ => mark_before m next

/-- Whatever stands in front of a mark, the mark ends it. -/
theorem isChain_append_mark {l l' : List Lexeme} (h : l.IsChain Before) (m : Mark)
    (h' : l'.IsChain Before) : (l ++ .mark m :: l').IsChain Before := by
  refine h.append (isChain_mark_cons m h') ?_
  rintro x - next ⟨⟩
  exact before_mark x m

/-- Rows may be joined by marks. -/
theorem isChain_intercalate (m : Mark) {rows : List (List Lexeme)}
    (h : ∀ row ∈ rows, row.IsChain Before) : ([.mark m].intercalate rows).IsChain Before := by
  induction rows with
  | nil => exact .nil
  | cons row rows ih =>
    obtain ⟨hrow, hrows⟩ := List.forall_mem_cons.1 h
    cases rows with
    | nil => rwa [List.intercalate_singleton]
    | cons next rows =>
      rw [List.intercalate_cons_cons, List.append_assoc]
      exact isChain_append_mark hrow m (ih hrows)

end Lexeme

/-- Whatever stands in an operand or between brackets is ended by a mark. -/
theorem Phrase.isChain_lexemes (p : Phrase) : p.lexemes.IsChain Lexeme.Before := by
  have hall (m : Mark) {es : List Phrase} (ih : ∀ e ∈ es, e.lexemes.IsChain Lexeme.Before) :
      ([.mark m].intercalate (Phrase.lexemesAll es)).IsChain Lexeme.Before := by
    rw [Phrase.lexemesAll_eq_map]
    exact Lexeme.isChain_intercalate m (List.forall_mem_map.2 ih)
  induction p using Phrase.induction with
  | conj es ih => exact hall .and ih
  | atom a => exact List.isChain_singleton _
  | isNull negated e ih => exact Lexeme.isChain_append_mark ih _ .nil
  | call head args ih =>
    refine List.IsChain.cons ?_ fun next _ => Lexeme.opening_before head next
    cases head with
    | ref set =>
      exact Lexeme.isChain_append_mark (hall .comma ih) _ (List.isChain_singleton _)
    | _ => exact Lexeme.isChain_append_mark (hall .comma ih) _ .nil

/-- In a query, what stands behind an atom ends it. -/
theorem NamedQuery.isChain_lexemes (q : NamedQuery) : q.lexemes.IsChain Lexeme.Before := by
  have hfilter : (filterLexemes q.filter?).IsChain Lexeme.Before := by
    cases q.filter? with
    | none => exact .nil
    | some filter => exact Lexeme.isChain_mark_cons .filter filter.isChain_lexemes
  refine q.returning.isChain_lexemes.append
    (hfilter.cons fun next _ => Lexeme.source_before q.source next) ?_
  rintro x - next ⟨⟩
  exact Lexeme.before_source x q.source

/-! ## Plain names -/

/-- The names of a schema are plain, and no relationship is called like one of the words that stand
in front of other brackets. -/
structure Schema.PlainNames (s : Schema) : Prop where
  models : ∀ m ∈ s.conceptual.models, Plain m.name ∧ ∀ f ∈ m.fields, Plain f.name
  associations : ∀ a ∈ s.conceptual.associations,
    Plain a.name ∧ a.name ≠ "ROW" ∧ a.name ≠ "CreateRef"
  containers : ∀ c ∈ s.conceptual.containers, Plain c.name ∧
    (∀ set ∈ c.entitySets, Plain set.name) ∧ ∀ set ∈ c.associationSets, Plain set.name
  stores : ∀ c ∈ s.store.containers, Plain c.name
  tables : ∀ t ∈ s.store.tables, Plain t.name

namespace Schema.PlainNames

variable {s : Schema}

/-- A qualified name is plain if both names are: the point ends no word. -/
theorem qualified {container name : String} (hc : Plain container) (hn : Plain name) :
    Plain (container ++ "." ++ name) := by
  intro c hmem
  simp only [String.toList_append, List.mem_append] at hmem
  obtain (hmem | hmem) | hmem := hmem
  · exact hc c hmem
  · simp_all [isSolid, Quoted.mark]
  · exact hn c hmem

/-- Extents have plain names. -/
theorem extent (h : s.PlainNames) {e : Extent} {name : String} (hname : s.extentName e = .ok name) :
    Plain name := by
  cases e with
  | entitySet id =>
    obtain ⟨owner, howner, hnamed⟩ := bind_eq_ok_iff.1 hname
    obtain ⟨set, hlookup, hr⟩ := bind_eq_ok_iff.1 hnamed
    cases hr
    obtain ⟨owner', howner', hset⟩ := bind_eq_ok_iff.1 hlookup
    cases howner.symm.trans howner'
    obtain ⟨hc, hsets, -⟩ := h.containers owner (mem_of_found howner)
    exact qualified hc (hsets set (mem_of_found hset))
  | associationSet id =>
    obtain ⟨owner, howner, hnamed⟩ := bind_eq_ok_iff.1 hname
    obtain ⟨set, hlookup, hr⟩ := bind_eq_ok_iff.1 hnamed
    cases hr
    obtain ⟨owner', howner', hset⟩ := bind_eq_ok_iff.1 hlookup
    cases howner.symm.trans howner'
    obtain ⟨hc, -, hsets⟩ := h.containers owner (mem_of_found howner)
    exact qualified hc (hsets set (mem_of_found hset))
  | table id =>
    obtain ⟨table, htable, hnamed⟩ := bind_eq_ok_iff.1 hname
    obtain ⟨owner, howner, hr⟩ := bind_eq_ok_iff.1 hnamed
    cases hr
    exact qualified (h.stores owner (mem_of_found howner)) (h.tables table (mem_of_found htable))

/-- Fields have plain names. -/
theorem field (h : s.PlainNames) {id : FieldId} {f : Field}
    (hf : s.conceptual.field id = .ok f) : Plain f.name := by
  obtain ⟨m, hm, hf⟩ := bind_eq_ok_iff.1 hf
  exact (h.models m (mem_of_found hm)).2 f (mem_of_found hf)

/-- Phrases with marks in between can be told if each of them can. -/
theorem legible_intercalate (m : Mark) {ps : List Phrase}
    (hps : ∀ p ∈ ps, ∀ x ∈ p.lexemes, x.Legible) :
    ∀ x ∈ [Lexeme.mark m].intercalate (Phrase.lexemesAll ps), x.Legible := by
  intro x hx
  rw [Phrase.lexemesAll_eq_map] at hx
  obtain hx | ⟨row, hrow, hx⟩ := Phrase.mem_or_of_mem_intercalate hx
  · rw [List.mem_singleton.1 hx]
    exact .mark m
  · obtain ⟨p, hp, rfl⟩ := List.mem_map.1 hrow
    exact hps p hp x hx

/-- A call can be told if its head and its values can. -/
theorem legible_call {head : Phrase.Head} (hhead : Lexeme.Legible (.opening head))
    {args : List Phrase} (hargs : ∀ p ∈ args, ∀ x ∈ p.lexemes, x.Legible) :
    ∀ x ∈ (Phrase.call head args).lexemes, x.Legible := by
  rw [Phrase.lexemes]
  refine List.forall_mem_cons.2 ⟨hhead, List.forall_mem_append.2
    ⟨legible_intercalate .comma hargs, fun x hx => ?_⟩⟩
  obtain rfl : x = .mark .closing := by cases head <;> simpa [Phrase.Head.closings] using hx
  exact .mark .closing

mutual

/-- Every lexeme of an expression is legible. -/
theorem legible (h : s.PlainNames) :
    ∀ (e : Expr) {p : Phrase}, e.phrase s = .ok p → ∀ x ∈ p.lexemes, x.Legible
  | .conj es, _, hp => by
    obtain ⟨ps, hps, hr⟩ := bind_eq_ok_iff.1 hp
    cases hr
    exact legible_intercalate .and (legibleAll h es hps)
  | .field id, _, hp => by
    obtain ⟨f, hf, hr⟩ := bind_eq_ok_iff.1 hp
    cases hr
    exact List.forall_mem_singleton.2 (.field (h.field hf))
  | .isNull negated e, _, hp => by
    obtain ⟨p, hoperand, hr⟩ := bind_eq_ok_iff.1 hp
    cases hr
    exact List.forall_mem_append.2 ⟨legible h e hoperand, List.forall_mem_singleton.2 (.mark _)⟩
  | .isOf only id, _, hp => by
    obtain ⟨m, hm, hr⟩ := bind_eq_ok_iff.1 hp
    cases hr
    exact List.forall_mem_singleton.2 (.isOf only (h.models m (mem_of_found hm)).1)
  | .record es, _, hp => by
    obtain ⟨ps, hps, hr⟩ := bind_eq_ok_iff.1 hp
    cases hr
    exact legible_call .record (legibleAll h es hps)
  | .ref set key, _, hp => by
    obtain ⟨name, hname, hkey⟩ := bind_eq_ok_iff.1 hp
    obtain ⟨ps, hps, hr⟩ := bind_eq_ok_iff.1 hkey
    cases hr
    exact legible_call (.ref (h.extent hname)) (legibleAll h key hps)
  | .relationship id es, _, hp => by
    obtain ⟨a, ha, hnamed⟩ := bind_eq_ok_iff.1 hp
    obtain ⟨ps, hps, hr⟩ := bind_eq_ok_iff.1 hnamed
    cases hr
    obtain ⟨hplain, hrecord, href⟩ := h.associations a (mem_of_found ha)
    exact legible_call (.relationship hplain hrecord href) (legibleAll h es hps)
  | .constant value, _, hp => by
    cases hp
    exact List.forall_mem_singleton.2 (.constant value)

/-- In a schema with plain names, the phrases of a list can be told. -/
theorem legibleAll (h : s.PlainNames) : ∀ (es : List Expr) {ps : List Phrase},
    Expr.phrases s es = .ok ps → ∀ p ∈ ps, ∀ x ∈ p.lexemes, x.Legible
  | [], _, hps => by
    cases hps
    nofun
  | e :: es, _, hps => by
    obtain ⟨p, hp, hcons⟩ := bind_eq_ok_iff.1 hps
    obtain ⟨rest, hrest, hr⟩ := bind_eq_ok_iff.1 hcons
    cases hr
    exact List.forall_mem_cons.2 ⟨legible h e hp, legibleAll h es hrest⟩

end

/-- In a schema with plain names, every query can be told. -/
theorem legible_query (h : s.PlainNames) {q : Query} {n : NamedQuery} (hn : q.named s = .ok n) :
    ∀ x ∈ n.lexemes, x.Legible := by
  obtain ⟨returning, hreturning, hsource⟩ := bind_eq_ok_iff.1 hn
  obtain ⟨source, hsource, hfilter⟩ := bind_eq_ok_iff.1 hsource
  have hall {filter? : Option Phrase}
      (hfilter : ∀ x ∈ NamedQuery.filterLexemes filter?, x.Legible) :
      ∀ x ∈ (NamedQuery.mk source returning filter?).lexemes, x.Legible := by
    refine List.forall_mem_append.2 ⟨h.legible _ hreturning, ?_⟩
    exact List.forall_mem_cons.2 ⟨.source (h.extent hsource), hfilter⟩
  split at hfilter
  · cases hfilter
    exact hall nofun
  · obtain ⟨filter, hphrase, hr⟩ := bind_eq_ok_iff.1 hfilter
    cases hr
    exact hall (List.forall_mem_cons.2 ⟨.mark .filter, h.legible _ hphrase⟩)

/-- If names are plain, then the text of a query tells what the query reads as, and nothing more. In
a tidy query it tells all but how conjunctions are nested. -/
theorem text_eq_iff (h : s.PlainNames) {q q' : Query} {t t' : String} (ht : q.text s = .ok t)
    (ht' : q'.text s = .ok t') : ∃ n n', q.named s = .ok n ∧ q'.named s = .ok n' ∧
      (t = t' ↔ n.read = n'.read) ∧ (n.Tidy → n'.Tidy → (t = t' ↔ n.flat = n'.flat)) := by
  rw [Query.text_eq] at ht ht'
  obtain ⟨n, hn, rfl⟩ := map_eq_ok_iff.1 ht
  obtain ⟨n', hn', rfl⟩ := map_eq_ok_iff.1 ht'
  have hread : "SELECT VALUE " ++ spell n.lexemes = "SELECT VALUE " ++ spell n'.lexemes ↔
      n.read = n'.read := by
    rw [← NamedQuery.lexemes_eq_iff]
    constructor
    · intro h'
      exact eq_of_spell_eq (h.legible_query hn) (h.legible_query hn') n.isChain_lexemes
        n'.isChain_lexemes (String.append_right_inj _ |>.1 h')
    · intro h'
      rw [h']
  refine ⟨n, n', hn, hn', hread, fun htidy htidy' => ?_⟩
  rw [← htidy.read_eq_flat, ← htidy'.read_eq_flat]
  exact hread

end Schema.PlainNames

/-! ## Conjunctions in texts -/

namespace Board

/-- Tasks, each of which may be done and may be paid. -/
def declarations : List Declaration := [
  .entity "Task", .field .key ⟨0⟩ "Id" .int32, .field .nullable ⟨0⟩ "Done" .boolean,
  .field .nullable ⟨0⟩ "Paid" .boolean, .container "Board", .entitySet ⟨0⟩ "Tasks" ⟨0⟩]

/-- The schema that they make. -/
def schema : Schema where
  conceptual := {
    models := [
      ⟨"Task", [⟨"Id", .scalar .int32, false, false⟩, ⟨"Done", .scalar .boolean, true, false⟩,
        ⟨"Paid", .scalar .boolean, true, false⟩], .entity ⟨none, false, [⟨⟨0⟩, 0⟩]⟩⟩]
    associations := []
    containers := [⟨"Board", [⟨"Tasks", ⟨0⟩⟩], []⟩] }
  store := ⟨[], []⟩
  mapping := ⟨[]⟩

theorem built : schema.Built := ⟨declarations, _, rfl⟩

/-- The names in it are plain. -/
theorem plainNames : schema.PlainNames := by
  constructor <;> simp [schema, Plain, isSolid, Quoted.mark]

/-- The id of the scanned task. -/
def id : Expr := .field ⟨⟨0⟩, 0⟩

/-- Whether it is done. -/
def done : Expr := .field ⟨⟨0⟩, 1⟩

/-- Whether it is paid. -/
def paid : Expr := .field ⟨⟨0⟩, 2⟩

/-- The ids of the tasks that pass a filter. -/
def tasks (filter : Expr) : Query := ⟨.entitySet ⟨⟨0⟩, 0⟩, filter, id⟩

/-- The same query by names. -/
def named (filter : Phrase) : NamedQuery := ⟨"Board.Tasks", .atom (.field "Id"), some filter⟩

/-- Whether it is unknown that a task is both done and paid. -/
def unknown : Expr := .isNull false (.conj [done, paid])

/-- Whether a task is done, and unknown whether it is paid. -/
def unpaid : Expr := .conj [done, .isNull false paid]

/-- The first condition by names. -/
def unknownPhrase : Phrase := .isNull false (.conj [.atom (.field "Done"), .atom (.field "Paid")])

/-- The second condition by names. -/
def unpaidPhrase : Phrase := .conj [.atom (.field "Done"), .isNull false (.atom (.field "Paid"))]

/-- The text that both have. -/
def text : String := "SELECT VALUE T.Id FROM Board.Tasks AS T WHERE T.Done AND T.Paid IS NULL"

/-- The first one is printed so. -/
theorem text_unknown : (tasks unknown).text schema = .ok text := by rfl

/-- And so is the second one. -/
theorem text_unpaid : (tasks unpaid).text schema = .ok text := by rfl

theorem named_unknown : (tasks unknown).named schema = .ok (named unknownPhrase) := by rfl

theorem named_unpaid : (tasks unpaid).named schema = .ok (named unpaidPhrase) := by rfl

/-- Whether a task is done and paid and has an id, put together from the left. -/
def leftmost : Expr := .conj [.conj [done, paid], .isNull true id]

/-- The same, put together from the right. -/
def rightmost : Expr := .conj [done, .conj [paid, .isNull true id]]

/-- The condition put together from the left, by names. -/
def leftmostPhrase : Phrase :=
  .conj [.conj [.atom (.field "Done"), .atom (.field "Paid")], .isNull true (.atom (.field "Id"))]

/-- The condition put together from the right, by names. -/
def rightmostPhrase : Phrase :=
  .conj [.atom (.field "Done"), .conj [.atom (.field "Paid"), .isNull true (.atom (.field "Id"))]]

/-- The text that these two have. -/
def joined : String :=
  "SELECT VALUE T.Id FROM Board.Tasks AS T WHERE T.Done AND T.Paid AND T.Id IS NOT NULL"

theorem text_leftmost : (tasks leftmost).text schema = .ok joined := by rfl

theorem text_rightmost : (tasks rightmost).text schema = .ok joined := by rfl

theorem named_leftmost : (tasks leftmost).named schema = .ok (named leftmostPhrase) := by rfl

theorem named_rightmost : (tasks rightmost).named schema = .ok (named rightmostPhrase) := by rfl

/-- A conjunction of two tidy phrases is tidy. -/
theorem tidy_pair {p p' : Phrase} (h : p.Tidy) (h' : p'.Tidy) : (Phrase.conj [p, p']).Tidy :=
  .conj (Nat.le_refl 2) (List.forall_mem_cons.2 ⟨h, List.forall_mem_singleton.2 h'⟩)

/-- The query is tidy if its filter is. -/
theorem tidy_named {filter : Phrase} (h : filter.Tidy) : (named filter).Tidy :=
  ⟨.atom _, by rintro _ ⟨⟩; exact h⟩

theorem tidy_leftmost : (named leftmostPhrase).Tidy :=
  tidy_named (tidy_pair (tidy_pair (.atom _) (.atom _)) (.isNull true (.atom _) nofun))

theorem tidy_rightmost : (named rightmostPhrase).Tidy :=
  tidy_named (tidy_pair (.atom _) (tidy_pair (.atom _) (.isNull true (.atom _) nofun)))

end Board

/-- A null test of a conjunction is written like the conjunction with a null test of its last
operand. -/
theorem Board.null_test_unclear : schema.Built ∧ schema.PlainNames ∧
    (tasks unknown).text schema = (tasks unpaid).text schema ∧
    (tasks unknown).named schema = .ok (named unknownPhrase) ∧
    (tasks unpaid).named schema = .ok (named unpaidPhrase) ∧
    (named unknownPhrase).flat ≠ (named unpaidPhrase).flat := by
  refine ⟨built, plainNames, text_unknown.trans text_unpaid.symm, named_unknown, named_unpaid, ?_⟩
  intro h
  cases congrArg NamedQuery.filter? h

/-- How a conjunction was put together is all that is lost. -/
theorem Board.nesting_untold : schema.PlainNames ∧
    (tasks leftmost).text schema = .ok joined ∧ (tasks rightmost).text schema = .ok joined ∧
    (tasks leftmost).named schema = .ok (named leftmostPhrase) ∧
    (tasks rightmost).named schema = .ok (named rightmostPhrase) ∧
    (named leftmostPhrase).Tidy ∧ (named rightmostPhrase).Tidy ∧
    (named leftmostPhrase).read = (named rightmostPhrase).read ∧
    (named leftmostPhrase).flat = (named rightmostPhrase).flat := by
  obtain ⟨n, n', hn, hn', hread, hflat⟩ := plainNames.text_eq_iff text_leftmost text_rightmost
  obtain rfl := Except.ok.inj (named_leftmost.symm.trans hn)
  obtain rfl := Except.ok.inj (named_rightmost.symm.trans hn')
  exact ⟨plainNames, text_leftmost, text_rightmost, hn, hn', tidy_leftmost, tidy_rightmost,
    hread.1 rfl, (hflat tidy_leftmost tidy_rightmost).1 rfl⟩

end QueryViews
