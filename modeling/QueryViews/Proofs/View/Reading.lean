import QueryViews.Proofs.View.Phrase
import Mathlib.Data.List.Forall2

/-!
# Reading

What a row of lexemes can be read back as. A conjunction has no brackets around it, so the row
shows its operands but neither how they were nested nor, behind a null test, how many of them it is
of: `Phrase.read` leaves out what the row does not show. It writes nested conjunctions flat and
takes a null test of several operands for one of the last operand; a conjunction of one operand is
that operand, and one of none reads as no argument.

`Reader` reads the lexemes of a phrase one by one, with a stack of the brackets around it, and ends
with what `Phrase.read` says (`Phrase.lexemes_eq_iff`).
-/

namespace QueryViews

namespace Phrase

/-- The operands that are written next to each other, of which there is at least one. A null test
that comes next is of the last one. -/
@[ext]
structure Row where
  front : List Phrase
  last : Phrase

namespace Row

/-- Where nothing is written, a conjunction of nothing can be read. -/
def nothing : Row := ⟨[], .conj []⟩

/-- The operands of a row. -/
def all (r : Row) : List Phrase := r.front ++ [r.last]

/-- One row after another: a test behind the second is still of the last operand. -/
def append (r r' : Row) : Row := ⟨r.all ++ r'.front, r'.last⟩

/-- Several rows as one. -/
def concat : List Row → Row
  | [] => nothing
  | [r] => r
  | r :: r' :: rows => r.append (concat (r' :: rows))

/-- The phrase that stands for a row: the only operand, or the conjunction of them. -/
def join : Row → Phrase
  | ⟨[], last⟩ => last
  | ⟨e :: front, last⟩ => .conj (e :: front ++ [last])

/-- The lexemes of a row. -/
def lexemes (r : Row) : List Lexeme := [.mark .and].intercalate (r.all.map Phrase.lexemes)

end Row

/-- Between brackets without anything inside there is no argument. -/
def trim : List Phrase → List Phrase
  | [.conj []] => []
  | args => args

mutual

/-- The operands that a phrase is written as. -/
def row : Phrase → Row
  | .conj es => .concat (rows es)
  | .atom a => ⟨[], .atom a⟩
  | .isNull negated e => ⟨e.row.front, .isNull negated e.row.last⟩
  | .call head args => ⟨[], .call head (trim ((rows args).map Row.join))⟩

/-- The rows of several phrases. -/
def rows : List Phrase → List Row
  | [] => []
  | e :: es => e.row :: rows es

end

/-- What a phrase reads as. -/
def read (p : Phrase) : Phrase := p.row.join

theorem rows_eq_map (ps : List Phrase) : rows ps = ps.map row := by
  induction ps with
  | nil => rfl
  | cons p ps ih => rw [rows, ih, List.map_cons]

end Phrase

namespace Phrase

/-! ## Reading keeps the lexemes -/

/-- Rows that are joined, and then joined with others, are all joined alike. -/
theorem intercalate_append {α : Type} {sep : List α} {rows rows' : List (List α)}
    (h : rows ≠ []) (h' : rows' ≠ []) : sep.intercalate (rows ++ rows') =
      sep.intercalate rows ++ sep ++ sep.intercalate rows' := by
  induction rows with
  | nil => exact absurd rfl h
  | cons row rows ih =>
    cases rows with
    | nil =>
      obtain ⟨row', rows', rfl⟩ := List.exists_cons_of_ne_nil h'
      simp [List.intercalate_cons_cons]
    | cons next rows =>
      rw [List.cons_append, List.cons_append, List.intercalate_cons_cons,
        List.intercalate_cons_cons, ← List.cons_append, ih (List.cons_ne_nil _ _)]
      simp only [List.append_assoc]

namespace Row

/-- The operands of two rows are those of the one and then those of the other. -/
theorem all_append (r r' : Row) : (r.append r').all = r.all ++ r'.all := by
  simp [append, all]

theorem all_ne_nil (r : Row) : r.all ≠ [] := by simp [all]

/-- A row after another one is written with the mark in between. -/
theorem lexemes_append (r r' : Row) :
    (r.append r').lexemes = r.lexemes ++ [.mark .and] ++ r'.lexemes := by
  rw [lexemes, all_append, List.map_append, intercalate_append (by simp [all_ne_nil])
    (by simp [all_ne_nil])]
  rfl

/-- Several rows are written with marks in between. -/
theorem lexemes_concat (rows : List Row) :
    (concat rows).lexemes = [.mark .and].intercalate (rows.map lexemes) := by
  fun_induction concat rows with
  | case1 => rfl
  | case2 r => simp
  | case3 r r' rows ih =>
    rw [lexemes_append, ih]
    simp only [List.map_cons, List.intercalate_cons_cons]

/-- A null test behind a row is one of the last operand. -/
theorem lexemes_isNull (r : Row) (negated : Bool) :
    lexemes ⟨r.front, .isNull negated r.last⟩ = r.lexemes ++ [.mark (.test negated)] := by
  obtain ⟨front, last⟩ := r
  cases front with
  | nil => simp [lexemes, all, Phrase.lexemes]
  | cons e front =>
    have hjoin (last : Phrase) : lexemes ⟨e :: front, last⟩ =
        [.mark .and].intercalate ((e :: front).map Phrase.lexemes) ++ [.mark .and] ++
          last.lexemes := by
      rw [lexemes, all, List.map_append, intercalate_append (by simp) (by simp),
        List.map_singleton, List.intercalate_singleton]
    rw [hjoin, hjoin, Phrase.lexemes, List.append_assoc]
    simp only [List.append_assoc]

/-- The phrase that stands for a row is written as the row. -/
theorem lexemes_join (r : Row) : r.join.lexemes = r.lexemes := by
  obtain ⟨front, last⟩ := r
  cases front with
  | nil => simp [join, lexemes, all]
  | cons e front =>
    rw [join, Phrase.lexemes, lexemesAll_eq_map]
    rfl

end Row

/-- An empty conjunction between brackets is written as nothing at all. -/
theorem intercalate_trim (sep : List Lexeme) (args : List Phrase) :
    sep.intercalate ((trim args).map lexemes) = sep.intercalate (args.map lexemes) := by
  rw [trim.eq_def]
  split
  · rfl
  · rfl

/-- The lexemes show the row of a phrase. -/
theorem lexemes_row (p : Phrase) : p.row.lexemes = p.lexemes := by
  induction p using Phrase.induction with
  | conj es ih =>
    rw [row, lexemes, Row.lexemes_concat, rows_eq_map, lexemesAll_eq_map, List.map_map]
    exact congrArg _ (List.map_congr_left ih)
  | atom a => rfl
  | isNull negated e ih => rw [row, lexemes, Row.lexemes_isNull, ih]
  | call head args ih =>
    rw [row, Row.lexemes, Row.all, List.nil_append, List.map_singleton,
      List.intercalate_singleton, lexemes, lexemes, lexemesAll_eq_map, lexemesAll_eq_map,
      intercalate_trim, rows_eq_map, List.map_map, List.map_map]
    have hargs : args.map ((lexemes ∘ Row.join) ∘ row) = args.map lexemes :=
      List.map_congr_left fun e he => (Row.lexemes_join e.row).trans (ih e he)
    rw [hargs]

/-- A phrase has the lexemes of what it reads as. -/
theorem lexemes_read (p : Phrase) : p.read.lexemes = p.lexemes :=
  (Row.lexemes_join p.row).trans p.lexemes_row

/-! ## The reader -/

/-- What has been read since a bracket was opened: arguments, and a row that may go on. -/
structure Level where
  args : List Phrase
  row : Row

/-- What is between the brackets if they are closed now. -/
def Level.values (l : Level) : List Phrase := trim (l.args ++ [l.row.join])

/-- What has been read so far. -/
structure Reader where
  level : Level
  /-- the open brackets, the last one first, each with what was read in front of it; those around
  another bracket have no head -/
  outer : List (Option Head × Level)

/-- The brackets that are opened in front of the values. -/
def Head.opened (level : Level) : Head → List (Option Head × Level)
  | .ref set => [(some (.ref set), ⟨[], .nothing⟩), (none, level)]
  | head => [(some head, level)]

namespace Reader

/-- Reads a phrase in the last place of the row. -/
def put (r : Reader) (p : Phrase) : Reader :=
  ⟨⟨r.level.args, ⟨r.level.row.front, p⟩⟩, r.outer⟩

/-- Reads a lexeme. An opening bracket starts a new level, and the closing one makes a phrase of
it. -/
def step (r : Reader) : Lexeme → Reader
  | .atom a => r.put (.atom a)
  | .opening head => ⟨⟨[], .nothing⟩, head.opened r.level ++ r.outer⟩
  | .mark .and => ⟨⟨r.level.args, ⟨r.level.row.all, .conj []⟩⟩, r.outer⟩
  | .mark .comma => ⟨⟨r.level.args ++ [r.level.row.join], .nothing⟩, r.outer⟩
  | .mark .closing =>
    match r.outer with
    | [] => r
    | (some head, level) :: outer => put ⟨level, outer⟩ (.call head r.level.values)
    | (none, level) :: outer => put ⟨level, outer⟩ r.level.row.last
  | .mark (.test negated) => r.put (.isNull negated r.level.row.last)
  | .source _ | .mark .filter => r

/-- Reads a row of lexemes. -/
def run (r : Reader) (l : List Lexeme) : Reader := l.foldl step r

/-- What comes first is read first. -/
theorem run_append (r : Reader) (l l' : List Lexeme) : r.run (l ++ l') = (r.run l).run l' :=
  List.foldl_append

theorem run_cons (r : Reader) (x : Lexeme) (l : List Lexeme) : r.run (x :: l) = (r.step x).run l :=
  rfl

theorem run_nil (r : Reader) : r.run [] = r := rfl

/-- Lexemes that are read as a row, wherever a row can go on. -/
def Shows (l : List Lexeme) (row : Row) : Prop := ∀ args front outer,
  run ⟨⟨args, ⟨front, .conj []⟩⟩, outer⟩ l = ⟨⟨args, ⟨front ++ row.front, row.last⟩⟩, outer⟩

/-- A null test behind a row is read as one of the last operand. -/
theorem Shows.isNull {l : List Lexeme} {row : Row} (h : Shows l row) (negated : Bool) :
    Shows (l ++ [.mark (.test negated)]) ⟨row.front, .isNull negated row.last⟩ := by
  intro args front outer
  rw [run_append, h]
  rfl

/-- Two rows with the mark in between are read as one. -/
theorem Shows.append {l l' : List Lexeme} {row row' : Row} (h : Shows l row) (h' : Shows l' row') :
    Shows (l ++ [.mark .and] ++ l') (row.append row') := by
  intro args front outer
  rw [run_append, run_append, h, run_cons, run_nil, step, h']
  simp [Row.append, Row.all]

/-- Rows with marks in between are read as one. -/
theorem Shows.concat {ls : List (List Lexeme)} {rows : List Row} (h : List.Forall₂ Shows ls rows) :
    Shows ([.mark .and].intercalate ls) (.concat rows) := by
  induction h with
  | nil =>
    intro args front outer
    rw [List.intercalate_nil, run_nil, Row.concat, Row.nothing, List.append_nil]
  | cons h hs ih =>
    cases hs with
    | nil => rwa [List.intercalate_singleton]
    | cons h' hs =>
      rw [List.intercalate_cons_cons]
      exact h.append ih

/-- Rows with commas in between are read as arguments. -/
theorem run_args {ls : List (List Lexeme)} {rows : List Row} (h : List.Forall₂ Shows ls rows)
    (hne : rows ≠ []) (args : List Phrase) (outer : List (Option Head × Level)) :
    ∃ level, run ⟨⟨args, .nothing⟩, outer⟩ ([.mark .comma].intercalate ls) = ⟨level, outer⟩ ∧
      level.args ++ [level.row.join] = args ++ rows.map Row.join := by
  induction h generalizing args with
  | nil => exact absurd rfl hne
  | @cons l row ls rows h hs ih =>
    cases hs with
    | nil =>
      refine ⟨⟨args, row⟩, ?_, rfl⟩
      rw [List.intercalate_singleton, Row.nothing, h]
      rfl
    | cons h' hs =>
      obtain ⟨level, hrun, hlevel⟩ := ih (List.cons_ne_nil _ _) (args ++ [row.join])
      refine ⟨level, ?_, ?_⟩
      · rw [List.intercalate_cons_cons, run_append, run_append, Row.nothing, h, run_cons, run_nil,
          step]
        exact hrun
      · rw [hlevel, List.append_assoc]
        rfl

/-- Brackets are read as a call with what stands between them. -/
theorem Shows.call {ls : List (List Lexeme)} {rows : List Row} (h : List.Forall₂ Shows ls rows)
    (head : Head) : Shows (.opening head :: ([.mark .comma].intercalate ls ++ head.closings))
      ⟨[], .call head (trim (rows.map Row.join))⟩ := by
  intro args front outer
  have hclose {level : Level} (hvalues : level.values = trim (rows.map Row.join)) :
      run ⟨level, head.opened ⟨args, ⟨front, .conj []⟩⟩ ++ outer⟩ head.closings =
        ⟨⟨args, ⟨front ++ [], .call head (trim (rows.map Row.join))⟩⟩, outer⟩ := by
    rw [← hvalues, List.append_nil]
    cases head <;> rfl
  rw [run_cons, run_append, step]
  cases h with
  | nil => exact hclose rfl
  | cons h hs =>
    obtain ⟨level, hrun, hlevel⟩ := run_args (.cons h hs) (List.cons_ne_nil _ _) []
      (head.opened ⟨args, ⟨front, .conj []⟩⟩ ++ outer)
    rw [hrun]
    exact hclose (congrArg trim hlevel)

end Reader

/-- The reader reads the row of a phrase off its lexemes. -/
theorem shows_lexemes (p : Phrase) : Reader.Shows p.lexemes p.row := by
  have hall {es : List Phrase} (ih : ∀ e ∈ es, Reader.Shows e.lexemes e.row) :
      List.Forall₂ Reader.Shows (lexemesAll es) (rows es) := by
    rw [lexemesAll_eq_map, rows_eq_map, List.forall₂_map_left_iff, List.forall₂_map_right_iff]
    exact List.forall₂_same.2 ih
  induction p using Phrase.induction with
  | conj es ih => exact .concat (hall ih)
  | atom a =>
    intro args front outer
    rw [row, List.append_nil]
    rfl
  | isNull negated e ih => exact ih.isNull negated
  | call head args ih => exact .call (hall ih) head

/-- Lexemes tell what a phrase reads as, and nothing more. -/
theorem lexemes_eq_iff {p p' : Phrase} : p.lexemes = p'.lexemes ↔ p.read = p'.read := by
  constructor
  · intro h
    have hrun := p.shows_lexemes [] [] []
    rw [h, p'.shows_lexemes [] [] []] at hrun
    obtain ⟨hfront, hlast⟩ : p'.row.front = p.row.front ∧ p'.row.last = p.row.last := by
      simpa using hrun
    have hrow : p'.row = p.row := Row.ext hfront hlast
    rw [read, read, hrow]
  · intro h
    rw [← p.lexemes_read, h, lexemes_read]

/-! ## Flat conjunctions -/

/-- The phrases that a phrase is the conjunction of. -/
def operands : Phrase → List Phrase
  | .conj es => es
  | e => [e]

mutual

/-- The phrase without conjunctions that are operands of conjunctions. -/
def flat : Phrase → Phrase
  | .conj es => .conj ((flatAll es).flatMap operands)
  | .atom a => .atom a
  | .isNull negated e => .isNull negated e.flat
  | .call head args => .call head (flatAll args)

/-- The phrases of a list, each without nested conjunctions. -/
def flatAll : List Phrase → List Phrase
  | [] => []
  | e :: es => e.flat :: flatAll es

end

theorem flatAll_eq_map (ps : List Phrase) : flatAll ps = ps.map flat := by
  induction ps with
  | nil => rfl
  | cons p ps ih => rw [flatAll, ih, List.map_cons]

/-- Every conjunction has at least two operands, and no null test is of a conjunction. -/
inductive Tidy : Phrase → Prop
  | conj {es : List Phrase} (htwo : 2 ≤ es.length) (hes : ∀ e ∈ es, Tidy e) : Tidy (.conj es)
  | atom (a : Atom) : Tidy (.atom a)
  | isNull (negated : Bool) {e : Phrase} (he : Tidy e) (hsingle : ∀ es, e ≠ .conj es) :
      Tidy (.isNull negated e)
  | call (head : Head) {args : List Phrase} (hargs : ∀ e ∈ args, Tidy e) : Tidy (.call head args)

/-- The operands of several rows, one row after another. -/
theorem Row.all_concat {rows : List Row} (h : rows ≠ []) :
    (concat rows).all = rows.flatMap all := by
  fun_induction concat rows with
  | case1 => exact absurd rfl h
  | case2 r => simp
  | case3 r r' rows ih =>
    rw [all_append, ih (List.cons_ne_nil _ _)]
    rfl

/-- Two operands or more are read as a conjunction. -/
theorem Row.join_eq_conj {r : Row} (h : 2 ≤ r.all.length) : r.join = .conj r.all := by
  obtain ⟨front, last⟩ := r
  cases front with
  | nil => simp [all] at h
  | cons e front => rfl

/-- Each phrase gives at least one operand to the row. -/
theorem length_le_flatMap_all (es : List Phrase) :
    es.length ≤ (es.flatMap fun e => e.row.all).length := by
  induction es with
  | nil => exact Nat.le_refl 0
  | cons e es ih =>
    rw [List.flatMap_cons, List.length_append, List.length_cons]
    have hpos : 0 < e.row.all.length := List.length_pos_iff.2 e.row.all_ne_nil
    omega

/-- Nothing is left out between brackets, if there is no empty conjunction. -/
theorem trim_eq_self {args : List Phrase} (h : .conj [] ∉ args) : trim args = args := by
  rw [trim.eq_def]
  split
  · exact absurd List.mem_cons_self h
  · rfl

/-- What is no conjunction has one operand. -/
theorem operands_flat {p : Phrase} (h : ∀ es, p ≠ .conj es) : p.flat.operands = [p.flat] := by
  cases p with
  | conj es => exact absurd rfl (h es)
  | _ => rfl

/-- In a tidy phrase nothing is lost but how conjunctions are nested. -/
theorem Tidy.operands_and_read {p : Phrase} (h : p.Tidy) :
    p.row.all = p.flat.operands ∧ p.read = p.flat := by
  induction h with
  | @conj es htwo hes ih =>
    have hne : es ≠ [] := List.ne_nil_of_length_pos (by omega)
    have hall : (Phrase.conj es).row.all = (Phrase.conj es).flat.operands := by
      calc (Phrase.conj es).row.all
          = es.flatMap fun e => e.row.all := by
            rw [row, rows_eq_map, Row.all_concat (by simpa using hne), List.flatMap_map]
        _ = es.flatMap fun e => e.flat.operands := List.flatMap_congr fun e he => (ih e he).1
        _ = (Phrase.conj es).flat.operands := by
            rw [flat, flatAll_eq_map, operands, List.flatMap_map]
    refine ⟨hall, ?_⟩
    -- a row of one operand would be read as that operand
    have hlength : 2 ≤ (Phrase.conj es).row.all.length := by
      rw [row, rows_eq_map, Row.all_concat (by simpa using hne), List.flatMap_map]
      exact htwo.trans (length_le_flatMap_all es)
    rw [read, Row.join_eq_conj hlength, hall]
    rfl
  | atom a => exact ⟨rfl, rfl⟩
  | @isNull negated e he hsingle ih =>
    have hrow : e.row = ⟨[], e.flat⟩ := by
      have hall := ih.1
      rw [operands_flat hsingle, Row.all, List.append_eq_singleton_iff] at hall
      obtain ⟨hfront, hlast⟩ | ⟨-, hlast⟩ := hall
      · exact Row.ext hfront (List.singleton_inj.1 hlast)
      · exact absurd hlast (List.cons_ne_nil _ _)
    rw [read, row, hrow]
    exact ⟨rfl, rfl⟩
  | @call head args hargs ih =>
    have hread : (rows args).map Row.join = args.map flat := by
      rw [rows_eq_map, List.map_map]
      exact List.map_congr_left fun e he => (ih e he).2
    -- an empty conjunction between the brackets would be left out
    have hnone : Phrase.conj [] ∉ args.map flat := by
      intro hmem
      obtain ⟨e, he, heq⟩ := List.mem_map.1 hmem
      exact e.row.all_ne_nil ((ih e he).1.trans (congrArg operands heq))
    rw [read, row, hread, trim_eq_self hnone, flat, flatAll_eq_map]
    exact ⟨rfl, rfl⟩

end Phrase

/-! ## Queries -/

namespace NamedQuery

/-- What a query reads as. -/
def read (q : NamedQuery) : NamedQuery :=
  ⟨q.source, q.returning.read, q.filter?.map Phrase.read⟩

/-- The query without conjunctions that are operands of conjunctions. -/
def flat (q : NamedQuery) : NamedQuery :=
  ⟨q.source, q.returning.flat, q.filter?.map Phrase.flat⟩

/-- The query is tidy in what it returns and in its filter. -/
def Tidy (q : NamedQuery) : Prop := q.returning.Tidy ∧ ∀ filter ∈ q.filter?, filter.Tidy

/-- No phrase scans anything. -/
theorem source_notMem_lexemes (name : String) (p : Phrase) : .source name ∉ p.lexemes := by
  have hall (m : Mark) {es : List Phrase} (ih : ∀ e ∈ es, .source name ∉ e.lexemes) :
      .source name ∉ [.mark m].intercalate (Phrase.lexemesAll es) := by
    intro hmem
    rw [Phrase.lexemesAll_eq_map] at hmem
    obtain hmem | ⟨row, hrow, hmem⟩ := Phrase.mem_or_of_mem_intercalate hmem
    · cases List.mem_singleton.1 hmem
    · obtain ⟨e, he, rfl⟩ := List.mem_map.1 hrow
      exact ih e he hmem
  induction p using Phrase.induction with
  | conj es ih => exact hall .and ih
  | atom a => simp [Phrase.lexemes]
  | isNull negated e ih => simpa [Phrase.lexemes] using ih
  | call head args ih =>
    have hclose : .source name ∉ head.closings := by cases head <;> simp [Phrase.Head.closings]
    simpa [Phrase.lexemes, hclose] using hall .comma ih

/-- The lexemes of a filter tell whether there is one, and what it reads as. -/
theorem filterLexemes_eq_iff {filter? filter?' : Option Phrase} :
    filterLexemes filter? = filterLexemes filter?' ↔
      filter?.map Phrase.read = filter?'.map Phrase.read := by
  cases filter? <;> cases filter?' <;> simp [filterLexemes, Phrase.lexemes_eq_iff]

/-- Lexemes tell what a query reads as, and nothing more. -/
theorem lexemes_eq_iff {q q' : NamedQuery} : q.lexemes = q'.lexemes ↔ q.read = q'.read := by
  obtain ⟨source, returning, filter?⟩ := q
  obtain ⟨source', returning', filter?'⟩ := q'
  have hnone (name : String) (filter? : Option Phrase) :
      .source name ∉ filterLexemes filter? := by
    cases filter? with
    | none => nofun
    | some filter => simpa [filterLexemes] using source_notMem_lexemes name filter
  rw [lexemes, lexemes, List.append_cons_inj_of_notMem (source_notMem_lexemes _ _) (hnone _ _)]
  simp [Phrase.lexemes_eq_iff, filterLexemes_eq_iff, read, and_left_comm]

/-- A tidy query is read as it is, but for the nesting of its conjunctions. -/
theorem Tidy.read_eq_flat {q : NamedQuery} (h : q.Tidy) : q.read = q.flat := by
  obtain ⟨source, returning, filter?⟩ := q
  cases filter? with
  | none => simp [read, flat, h.1.operands_and_read.2]
  | some filter => simp [read, flat, h.1.operands_and_read.2, (h.2 filter rfl).operands_and_read.2]

end NamedQuery

end QueryViews
