import QueryViews.Expr.Text
import QueryViews.Proofs.Outcome

/-!
# Phrases

A **phrase** is an expression with names in place of ids (`Expr.phrase`). It is written as a row of
lexemes (`Phrase.lexemes`): names and constants, opening brackets with what stands in front of
them, and marks. The text of an expression is the spelling of the lexemes of its phrase, and so is
the text of a query, behind its first two words (`Expr.text_eq`, `Query.text_eq`).

What is lost on the way from phrases to texts is told in two steps then: from phrases to lexemes,
and from lexemes to characters.
-/

namespace QueryViews

namespace Phrase

/-- What is written without anything inside. -/
inductive Atom
  | field (name : String)
  | isOf (only : Bool) (type : String)
  | constant (value : Constant)
  deriving DecidableEq

/-- What makes a value of the values in brackets. A reference is one into an entity set, which goes
by its qualified name; in brackets is the key. -/
inductive Head
  | record
  | ref (set : String)
  | relationship (name : String)
  deriving DecidableEq

end Phrase

/-- An expression with names in place of ids. -/
inductive Phrase
  | conj (operands : List Phrase)
  | atom (a : Phrase.Atom)
  | isNull (negated : Bool) (operand : Phrase)
  | call (head : Phrase.Head) (args : List Phrase)

/-- What holds of a phrase if it holds of the phrases in it, holds of every phrase. -/
@[elab_as_elim]
theorem Phrase.induction {motive : Phrase → Prop}
    (conj : ∀ es, (∀ e ∈ es, motive e) → motive (.conj es)) (atom : ∀ a, motive (.atom a))
    (isNull : ∀ negated e, motive e → motive (.isNull negated e))
    (call : ∀ head args, (∀ e ∈ args, motive e) → motive (.call head args)) (p : Phrase) :
    motive p :=
  @Phrase.rec motive (fun es => ∀ e ∈ es, motive e) conj atom isNull call nofun
    (fun _ _ he hes => List.forall_mem_cons.2 ⟨he, hes⟩) p

/-- A query with names in place of ids; no filter stands for the one that is true. -/
structure NamedQuery where
  source : String
  returning : Phrase
  filter? : Option Phrase

mutual

/-- An expression by names. -/
def Expr.phrase (s : Schema) : Expr → Except Fault Phrase
  | .conj es => return .conj (← Expr.phrases s es)
  | .field id => return .atom (.field (← s.conceptual.field id).name)
  | .isNull negated e => return .isNull negated (← e.phrase s)
  | .isOf only id => return .atom (.isOf only (← s.conceptual.model id).name)
  | .record es => return .call .record (← Expr.phrases s es)
  | .ref set key => do
    let name ← s.extentName (.entitySet set)
    return .call (.ref name) (← Expr.phrases s key)
  | .relationship id es => do
    let name := (← s.conceptual.association id).name
    return .call (.relationship name) (← Expr.phrases s es)
  | .constant value => .ok (.atom (.constant value))

/-- Several expressions by names. -/
def Expr.phrases (s : Schema) : List Expr → Except Fault (List Phrase)
  | [] => .ok []
  | e :: es => return (← e.phrase s) :: (← Expr.phrases s es)

end

/-- A query by names. -/
def Query.named (s : Schema) (q : Query) : Except Fault NamedQuery := do
  let returning ← q.returning.phrase s
  let source ← s.extentName q.source
  if q.filter.isTrue then return ⟨source, returning, none⟩
  else return ⟨source, returning, some (← q.filter.phrase s)⟩

/-! ## Lexemes -/

/-- A piece of text that is always spelt alike. -/
inductive Mark
  | and
  | comma
  | closing
  | test (negated : Bool)
  | filter
  deriving DecidableEq

/-- A piece of the text of a query. -/
inductive Lexeme
  | atom (a : Phrase.Atom)
  | opening (head : Phrase.Head)
  /-- the scan of an extent -/
  | source (name : String)
  | mark (m : Mark)
  deriving DecidableEq

/-- An atom as it is spelt. -/
def Phrase.Atom.text : Atom → String
  | .field name => "T." ++ name
  | .isOf only type => "T IS OF (" ++ (if only then "ONLY " else "") ++ type ++ ")"
  | .constant value => value.literal

/-- What stands in front of the values, up to the bracket. -/
def Phrase.Head.text : Head → String
  | .record => "ROW("
  | .ref set => "CreateRef(" ++ set ++ ", ROW("
  | .relationship name => name ++ "("

/-- A mark as it is spelt. -/
def Mark.text : Mark → String
  | .and => " AND "
  | .comma => ", "
  | .closing => ")"
  | .test negated => if negated then " IS NOT NULL" else " IS NULL"
  | .filter => " WHERE "

/-- A lexeme as it is spelt. -/
def Lexeme.text : Lexeme → String
  | .atom a => a.text
  | .opening head => head.text
  | .source name => " FROM " ++ name ++ " AS T"
  | .mark m => m.text

/-- The text of a row of lexemes. -/
def spell : List Lexeme → String
  | [] => ""
  | x :: rest => x.text ++ spell rest

@[simp] theorem spell_nil : spell [] = "" := rfl

@[simp] theorem spell_cons (x : Lexeme) (l : List Lexeme) : spell (x :: l) = x.text ++ spell l :=
  rfl

/-- Rows of lexemes are spelt one after the other. -/
@[simp] theorem spell_append (l l' : List Lexeme) : spell (l ++ l') = spell l ++ spell l' := by
  induction l with
  | nil => simp
  | cons x l ih => simp [ih, String.append_assoc]

/-- Rows of lexemes with a lexeme in between, and texts with its text in between. -/
theorem spell_intercalate (x : Lexeme) (rows : List (List Lexeme)) :
    spell ([x].intercalate rows) = x.text.intercalate (rows.map spell) := by
  induction rows with
  | nil => rfl
  | cons row rows ih =>
    cases rows with
    | nil => simp
    | cons next rows =>
      rw [List.intercalate_cons_cons, List.map_cons, List.map_cons,
        String.intercalate_cons_cons, ← List.map_cons, ← ih, spell_append, spell_append,
        spell_cons, spell_nil, String.append_empty]

/-- What closes the brackets that are opened in front of the values. -/
def Phrase.Head.closings : Head → List Lexeme
  | .ref _ => [.mark .closing, .mark .closing]
  | _ => [.mark .closing]

mutual

/-- The lexemes of a phrase. Nothing shows where a conjunction begins or ends. -/
def Phrase.lexemes : Phrase → List Lexeme
  | .conj es => [.mark .and].intercalate (Phrase.lexemesAll es)
  | .atom a => [.atom a]
  | .isNull negated e => e.lexemes ++ [.mark (.test negated)]
  | .call head args =>
    .opening head :: ([.mark .comma].intercalate (Phrase.lexemesAll args) ++ head.closings)

/-- The lexemes of several phrases, each on its own. -/
def Phrase.lexemesAll : List Phrase → List (List Lexeme)
  | [] => []
  | e :: es => e.lexemes :: Phrase.lexemesAll es

end

/-- The lexemes of a filter, if there is one. -/
def NamedQuery.filterLexemes : Option Phrase → List Lexeme
  | none => []
  | some filter => .mark .filter :: filter.lexemes

/-- The lexemes of a query behind its first two words. -/
def NamedQuery.lexemes (q : NamedQuery) : List Lexeme :=
  q.returning.lexemes ++ .source q.source :: filterLexemes q.filter?

/-! ## Texts -/

/-- The text of a phrase. -/
def Phrase.text (p : Phrase) : String := spell p.lexemes

namespace Phrase

/-- What is in a joined row is in a part of it, or in what joins them. -/
theorem mem_or_of_mem_intercalate {α : Type} {sep : List α} {rows : List (List α)} {x : α}
    (h : x ∈ sep.intercalate rows) : x ∈ sep ∨ ∃ row ∈ rows, x ∈ row := by
  induction rows with
  | nil => cases h
  | cons row rows ih =>
    cases rows with
    | nil => exact .inr ⟨row, List.mem_singleton_self row, by simpa using h⟩
    | cons next rows =>
      rw [List.intercalate_cons_cons, List.mem_append, List.mem_append] at h
      obtain (h | h) | h := h
      · exact .inr ⟨row, List.mem_cons_self, h⟩
      · exact .inl h
      · exact (ih h).imp_right fun ⟨row, hrow, hmem⟩ => ⟨row, List.mem_cons_of_mem _ hrow, hmem⟩

theorem lexemesAll_eq_map (ps : List Phrase) : lexemesAll ps = ps.map lexemes := by
  induction ps with
  | nil => rfl
  | cons p ps ih => rw [lexemesAll, ih, List.map_cons]

/-- Operands are spelt with the word in between, and with no brackets. -/
theorem text_conj (ps : List Phrase) : (conj ps).text = " AND ".intercalate (ps.map text) := by
  rw [text, lexemes, spell_intercalate, lexemesAll_eq_map, List.map_map]
  rfl

theorem text_atom (a : Atom) : (atom a).text = a.text := by
  rw [text, lexemes, spell_cons, spell_nil, String.append_empty, Lexeme.text]

/-- A null test is spelt behind its operand. -/
theorem text_isNull (negated : Bool) (p : Phrase) :
    (isNull negated p).text = p.text ++ if negated then " IS NOT NULL" else " IS NULL" := by
  rw [text, lexemes, spell_append, spell_cons, spell_nil, String.append_empty]
  rfl

/-- Values in brackets are spelt with commas in between. -/
theorem text_call (head : Head) (args : List Phrase) : (call head args).text =
    head.text ++ ", ".intercalate (args.map text) ++ spell head.closings := by
  rw [text, lexemes, spell_cons, spell_append, spell_intercalate, lexemesAll_eq_map, List.map_map,
    ← String.append_assoc]
  rfl

end Phrase

mutual

/-- The text of an expression is that of its phrase. -/
theorem Expr.text_eq (s : Schema) : ∀ e : Expr, e.text s = Phrase.text <$> e.phrase s
  -- both fault at the same look-up, so the cases are those of the look-ups in their order
  | .conj es => by
    rw [text, phrase, Expr.texts_eq s es]
    cases Expr.phrases s es with
    | error f => rfl
    | ok ps => exact congrArg Except.ok (Phrase.text_conj ps).symm
  | .field id => by
    rw [text, phrase]
    cases s.conceptual.field id with
    | error f => rfl
    | ok f => exact congrArg Except.ok (Phrase.text_atom (.field f.name)).symm
  | .isNull negated e => by
    rw [text, phrase, Expr.text_eq s e]
    cases e.phrase s with
    | error f => rfl
    | ok p => exact congrArg Except.ok (Phrase.text_isNull negated p).symm
  | .isOf only id => by
    rw [text, phrase]
    cases s.conceptual.model id with
    | error f => rfl
    | ok m => exact congrArg Except.ok (Phrase.text_atom (.isOf only m.name)).symm
  | .record es => by
    rw [text, phrase, Expr.texts_eq s es]
    cases Expr.phrases s es with
    | error f => rfl
    | ok ps => exact congrArg Except.ok (Phrase.text_call .record ps).symm
  | .ref set key => by
    rw [text, phrase, Expr.texts_eq s key]
    cases s.extentName (.entitySet set) with
    | error f => rfl
    | ok name =>
      cases Expr.phrases s key with
      | error f => rfl
      | ok ps => exact congrArg Except.ok (Phrase.text_call (.ref name) ps).symm
  | .relationship id es => by
    rw [text, phrase, Expr.texts_eq s es]
    cases s.conceptual.association id with
    | error f => rfl
    | ok a =>
      cases Expr.phrases s es with
      | error f => rfl
      | ok ps => exact congrArg Except.ok (Phrase.text_call (.relationship a.name) ps).symm
  | .constant value => congrArg Except.ok (Phrase.text_atom (.constant value)).symm

/-- Expressions are printed as their phrases are spelt. -/
theorem Expr.texts_eq (s : Schema) : ∀ es : List Expr,
    Expr.texts s es = List.map Phrase.text <$> Expr.phrases s es
  | [] => rfl
  | e :: es => by
    rw [Expr.texts, Expr.phrases, Expr.text_eq s e, Expr.texts_eq s es]
    cases e.phrase s with
    | error f => rfl
    | ok p =>
      cases Expr.phrases s es with
      | error f => rfl
      | ok ps => rfl

end

namespace NamedQuery

variable (source : String) (returning filter : Phrase)

/-- A query without a filter, as it is spelt. -/
theorem spell_of_none : "SELECT VALUE " ++ spell (lexemes ⟨source, returning, none⟩) =
    "SELECT VALUE " ++ returning.text ++ " FROM " ++ source ++ " AS T" := by
  apply String.toList_inj.1
  simp [lexemes, filterLexemes, Phrase.text, Lexeme.text]

/-- A query with a filter, as it is spelt. -/
theorem spell_of_some : "SELECT VALUE " ++ spell (lexemes ⟨source, returning, some filter⟩) =
    "SELECT VALUE " ++ returning.text ++ " FROM " ++ source ++ " AS T" ++ " WHERE " ++
      filter.text := by
  apply String.toList_inj.1
  simp [lexemes, filterLexemes, Phrase.text, Lexeme.text, Mark.text]

end NamedQuery

/-- The text of a query is that of its named query. -/
theorem Query.text_eq (s : Schema) (q : Query) :
    q.text s = (fun n => "SELECT VALUE " ++ spell n.lexemes) <$> q.named s := by
  rw [text, named, Expr.text_eq, Expr.text_eq]
  cases q.returning.phrase s with
  | error f => rfl
  | ok returning =>
    cases s.extentName q.source with
    | error f => rfl
    | ok source =>
      cases q.filter.isTrue with
      | true => exact congrArg Except.ok (NamedQuery.spell_of_none source returning).symm
      | false =>
        cases q.filter.phrase s with
        | error f => rfl
        | ok filter =>
          exact congrArg Except.ok (NamedQuery.spell_of_some source returning filter).symm

end QueryViews
