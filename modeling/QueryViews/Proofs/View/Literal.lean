import QueryViews.Proofs.View.Occurrences
import QueryViews.Proofs.View.Spelling
import QueryViews.Proofs.View.Text
import QueryViews.Proofs.View.Unambiguous

/-!
# Literals in view text

The literal of a constant tells the constant (`Constant.eq_of_literal_eq`). That of a text is read
back from its opening quote, whatever follows but a quote (`Constant.scan_literal_iff`), so the end
of the text is the end of the literal.

In the text of a query nothing that stands behind a constant begins with a quote. A text that is put
in place of another one (`Query.put`) changes its own literal, and what is before and behind that
stays as it is (`Query.exists_text_put`).
-/

namespace QueryViews

/-! ## Constants -/

namespace Constant

/-- A literal is read back exactly if no other quote follows. -/
theorem scan_literal_iff (text rest : String) :
    Quoted.scan ((Constant.text text).literal ++ rest).toList = some (text.toList, rest.toList) ↔
      rest.toList.head? ≠ some Quoted.mark := by
  have hchars : ((Constant.text text).literal ++ rest).toList =
      Quoted.quote text.toList ++ rest.toList := by
    rw [String.toList_append, literal, String.toList_ofList]
  rw [hchars]
  refine ⟨fun h => ?_, Quoted.scan_quote text.toList⟩
  rw [Quoted.quote, List.cons_append, Quoted.scan, if_pos rfl] at h
  exact (Quoted.scanBody_eq_some_iff.1 h).2

/-- No literal but that of a text begins with a quote. -/
theorem IsWord.literal_ne {value : Constant} (h : value.IsWord) (text : String) :
    value.literal ≠ (Constant.text text).literal := by
  intro heq
  have hmark : Quoted.mark ∈ value.literal.toList := by
    rw [heq, Constant.literal, String.toList_ofList, Quoted.quote]
    exact List.mem_cons_self
  exact absurd (h.literal.2 _ hmark).1 (by decide)

/-- The literal of a constant tells the constant: a text is read back, and all others are words. -/
theorem eq_of_literal_eq {value value' : Constant} (h : value.literal = value'.literal) :
    value = value' := by
  obtain ⟨text, rfl⟩ | hword := Lexeme.constant_cases value
  · obtain ⟨text', rfl⟩ | hword' := Lexeme.constant_cases value'
    · -- both are read from the same literal
      have hread := (scan_literal_iff text "").2 nofun
      rw [h, (scan_literal_iff text' "").2 nofun] at hread
      rw [String.toList_inj.1 (Prod.mk.inj (Option.some.inj hread)).1]
    · exact absurd h.symm (hword'.literal_ne text)
  · obtain ⟨text', rfl⟩ | hword' := Lexeme.constant_cases value'
    · exact absurd h (hword.literal_ne text')
    · exact literal_injective hword hword' h

end Constant

/-! ## Putting an expression in a place -/

namespace Expr

/-- The expression with other parts, as many as it has. -/
def withParts : Expr → List Expr → Expr
  | .conj _, es => .conj es
  | .isNull negated e, es => .isNull negated (es.headD e)
  | .record _, es => .record es
  | .ref set _, es => .ref set es
  | .relationship a _, es => .relationship a es
  | e, _ => e

/-- The expression with another one at a place. -/
def put (y : Expr) (e : Expr) : Place → Expr
  | [] => y
  | i :: place => e.withParts (e.parts.modify i fun part => put y part place)

/-- An expression has its own parts. -/
theorem withParts_parts (e : Expr) : e.withParts e.parts = e := by
  cases e <;> rfl

/-- A change that does not change the element at the place changes nothing. -/
theorem modify_of_fixed {α : Type} {l : List α} {i : Nat} {a : α} {f : α → α} (h : l[i]? = some a)
    (hf : f a = a) : l.modify i f = l := by
  refine List.ext_getElem? fun j => ?_
  rw [List.getElem?_modify]
  split
  · rename_i hij
    rw [← hij, h, Option.map_eq_map, Option.map_some, hf]
  · rw [Option.map_eq_map, Option.map_id_fun', id]

variable {s : Schema} {e x y : Expr} {place : Place}

/-- Putting what is there changes nothing. -/
theorem put_eq_self (h : e.nodeAt? place = some x) : put x e place = e := by
  induction place generalizing e with
  | nil => exact (Option.some.inj h).symm
  | cons i place ih =>
    obtain ⟨part, hpart, hx⟩ := Option.bind_eq_some_iff.1 h
    rw [put, modify_of_fixed hpart (ih hx), withParts_parts]

/-- Only an expression that is put in place of the whole can be `true`. -/
theorem isTrue_put (h : e.nodeAt? place = some x) (hy : y.isTrue = false) :
    (put y e place).isTrue = false := by
  cases place with
  | nil => exact hy
  | cons i place =>
    obtain ⟨part, hpart, -⟩ := Option.bind_eq_some_iff.1 h
    cases e with
    | field | isOf | constant => cases hpart
    | _ => rfl

end Expr

/-! ## Texts around a place -/

/-- The text does not begin with a quote. -/
def Unquoted (text : String) : Prop := text.toList.head? ≠ some Quoted.mark

theorem unquoted_empty : Unquoted "" := nofun

/-- Of two texts neither of which begins with a quote, the whole does not. -/
theorem Unquoted.append {text text' : String} (h : Unquoted text) (h' : Unquoted text') :
    Unquoted (text ++ text') := by
  rw [Unquoted, String.toList_append, List.head?_append]
  cases hhead : text.toList.head? with
  | none => exact h'
  | some c => exact fun heq => h (hhead.trans heq)

/-- Around one of several texts stands what does not depend on it. -/
theorem exists_intercalate_eq {separator : String} (h : ∀ rest, Unquoted (separator ++ rest))
    (l r : List String) : ∃ before after, Unquoted after ∧
      ∀ t, separator.intercalate (l ++ t :: r) = before ++ t ++ after := by
  obtain ⟨after, hafter, hr⟩ : ∃ after, Unquoted after ∧
      ∀ t, separator.intercalate (t :: r) = t ++ after := by
    cases r with
    | nil => exact ⟨"", unquoted_empty, fun t => by simp⟩
    | cons u r =>
      refine ⟨separator ++ separator.intercalate (u :: r), h _, fun t => ?_⟩
      rw [String.intercalate_cons_cons, String.append_assoc]
  cases l with
  | nil => exact ⟨"", after, hafter, fun t => by rw [List.nil_append, hr, String.empty_append]⟩
  | cons u l =>
    refine ⟨separator.intercalate (u :: l) ++ separator, after, hafter, fun t => ?_⟩
    rw [String.intercalate_append_of_ne_nil (List.cons_ne_nil u l) (List.cons_ne_nil t r), hr,
      ← String.append_assoc]

namespace Expr

variable {s : Schema} {e x y : Expr} {place : Place}

/-- The text of an expression is made of those of its parts, with other things around them. -/
theorem exists_text_withParts {t : String} (h : e.text s = .ok t) :
    ∃ opening separator closing ts, (∀ rest, Unquoted (separator ++ rest)) ∧ Unquoted closing ∧
      texts s e.parts = .ok ts ∧ ∀ es ts', es.length = e.parts.length → texts s es = .ok ts' →
        (e.withParts es).text s = .ok (opening ++ separator.intercalate ts' ++ closing) := by
  have hand (rest : String) : Unquoted (" AND " ++ rest) := by simp [Unquoted, Quoted.mark]
  have hcomma (rest : String) : Unquoted (", " ++ rest) := by simp [Unquoted, Quoted.mark]
  have hparen (rest : String) : Unquoted (")" ++ rest) := by simp [Unquoted, Quoted.mark]
  -- whatever separates the parts or closes the brackets begins with a blank or a bracket
  cases e with
  | conj es =>
    obtain ⟨ts, hts, -⟩ := bind_eq_ok_iff.1 h
    refine ⟨"", " AND ", "", ts, hand, unquoted_empty, hts, fun es ts' _ hes => ?_⟩
    rw [withParts, text, hes, String.empty_append, String.append_empty]
    rfl
  | record es =>
    obtain ⟨ts, hts, -⟩ := bind_eq_ok_iff.1 h
    refine ⟨"ROW(", ", ", ")", ts, hcomma, hparen "", hts, fun es ts' _ hes => ?_⟩
    rw [withParts, text, hes]
    rfl
  | ref set key =>
    obtain ⟨name, hname, h⟩ := bind_eq_ok_iff.1 h
    obtain ⟨ts, hts, -⟩ := bind_eq_ok_iff.1 h
    refine ⟨"CreateRef(" ++ name ++ ", ROW(", ", ", "))", ts, hcomma, hparen ")", hts,
      fun es ts' _ hes => ?_⟩
    rw [withParts, text, hes, hname]
    rfl
  | relationship a es =>
    obtain ⟨declared, ha, h⟩ := bind_eq_ok_iff.1 h
    obtain ⟨ts, hts, -⟩ := bind_eq_ok_iff.1 h
    refine ⟨declared.name ++ "(", ", ", ")", ts, hcomma, hparen "", hts, fun es ts' _ hes => ?_⟩
    rw [withParts, text, hes, ha]
    rfl
  -- the only part has nothing to be separated from
  | isNull negated e =>
    obtain ⟨t, ht, -⟩ := bind_eq_ok_iff.1 h
    refine ⟨"", ", ", if negated then " IS NOT NULL" else " IS NULL", [t], hcomma, ?_, ?_,
      fun es ts' hlength hes => ?_⟩
    · cases negated <;> simp [Unquoted, Quoted.mark]
    · rw [parts, texts, ht]
      rfl
    · obtain ⟨e', rfl⟩ := List.length_eq_one_iff.1 hlength
      cases texts_eq_ok_iff.1 hes with
      | cons ht' hnil =>
        cases hnil
        rw [String.intercalate_singleton, String.empty_append]
        change (e'.text s >>= fun _ => _) = _
        rw [ht']
        rfl
  | field | isOf | constant =>
    refine ⟨t, ", ", "", [], hcomma, unquoted_empty, rfl, fun es ts' hlength hes => ?_⟩
    obtain rfl := List.eq_nil_of_length_eq_zero hlength
    cases hes
    rw [String.intercalate_nil, String.append_empty, String.append_empty]
    exact h

/-- Texts of expressions, when one of the expressions is another one. -/
theorem exists_texts_modify {es : List Expr} {ts : List String} (h : texts s es = .ok ts) {i : Nat}
    (hi : es[i]? = some e) : (∃ t, e.text s = .ok t) ∧ ∃ l r, ∀ f t, (f e).text s = .ok t →
      texts s (es.modify i f) = .ok (l ++ t :: r) := by
  induction es generalizing i ts with
  | nil => cases hi
  | cons e' es ih =>
    obtain ⟨t', ht', hrest⟩ := bind_eq_ok_iff.1 h
    obtain ⟨ts', hts', -⟩ := bind_eq_ok_iff.1 hrest
    cases i with
    | zero =>
      cases hi
      refine ⟨⟨t', ht'⟩, [], ts', fun f t ht => ?_⟩
      rw [List.modify_zero_cons, texts, ht, hts']
      rfl
    | succ i =>
      obtain ⟨hexists, l, r, hmodify⟩ := ih hts' hi
      refine ⟨hexists, t' :: l, r, fun f t ht => ?_⟩
      rw [List.modify_succ_cons, texts, ht', hmodify f t ht]
      rfl

/-- The text of an expression with another one at some place, of which it depends on the text
only. -/
theorem exists_text_put {t : String} (h : e.text s = .ok t) (hx : e.nodeAt? place = some x) :
    ∃ before after, Unquoted after ∧
      ∀ y t', y.text s = .ok t' → (put y e place).text s = .ok (before ++ t' ++ after) := by
  induction place generalizing e t with
  | nil =>
    exact ⟨"", "", unquoted_empty, fun y t' ht' => by
      rw [put, ht', String.empty_append, String.append_empty]⟩
  | cons i place ih =>
    obtain ⟨part, hpart, hx⟩ := Option.bind_eq_some_iff.1 hx
    obtain ⟨opening, separator, closing, ts, hseparator, hclosing, hts, hparts⟩ :=
      exists_text_withParts h
    obtain ⟨⟨t₁, ht₁⟩, l, r, hmodify⟩ := exists_texts_modify hts hpart
    obtain ⟨inner, innerAfter, hinner, hput⟩ := ih ht₁ hx
    obtain ⟨before, after, hafter, hall⟩ := exists_intercalate_eq hseparator l r
    refine ⟨opening ++ before ++ inner, innerAfter ++ after ++ closing,
      (hinner.append hafter).append hclosing, fun y t' ht' => ?_⟩
    have hmodified := hmodify (put y · place) _ (hput y t' ht')
    rw [put, hparts _ _ (List.length_modify ..) hmodified, hall]
    simp only [String.append_assoc]

end Expr

/-! ## Queries -/

namespace Query

/-- The query with another expression at a place, in its filter or in what it returns. -/
def put (y : Expr) (q : Query) : Place → Query
  | 0 :: place => { q with filter := Expr.put y q.filter place }
  | 1 :: place => { q with returning := Expr.put y q.returning place }
  | _ => q

variable {s : Schema} {q : Query} {x : Expr} {place : Place}

/-- Putting what is there changes nothing. -/
theorem put_eq_self (h : q.nodeAt? place = some x) : q.put x place = q := by
  match place with
  | 0 :: place => rw [put, Expr.put_eq_self h]
  | 1 :: place => rw [put, Expr.put_eq_self h]

/-- What stands behind a scan for a filter: nothing for one that is true. -/
def clause (s : Schema) (filter : Expr) : Except Fault String :=
  if filter.isTrue then .ok "" else (" WHERE " ++ ·) <$> filter.text s

/-- The text of a query, with the filter as a clause of its own. -/
theorem text_eq_clause (s : Schema) (q : Query) : q.text s = do
    let returned ← q.returning.text s
    let name ← s.extentName q.source
    let narrowed ← clause s q.filter
    return "SELECT VALUE " ++ returned ++ " FROM " ++ name ++ " AS T" ++ narrowed := by
  rw [text, clause]
  refine bind_congr fun returned => bind_congr fun name => ?_
  cases q.filter.isTrue with
  | true => exact congrArg Except.ok String.append_empty.symm
  | false =>
    cases q.filter.text s with
    | error f => rfl
    | ok t => exact congrArg Except.ok String.append_assoc

/-- Around a text at some place in a query stands what does not depend on it. -/
theorem exists_text_put {t text : String} (h : q.text s = .ok t)
    (hx : q.nodeAt? place = some (.constant (.text text))) :
    ∃ before after, Unquoted after ∧ t = before ++ (Constant.text text).literal ++ after ∧
      ∀ text', (q.put (.constant (.text text')) place).text s =
        .ok (before ++ (Constant.text text').literal ++ after) := by
  -- what is there now is one of the texts that can be put there
  suffices hput : ∃ before after, Unquoted after ∧
      ∀ text', (q.put (.constant (.text text')) place).text s =
        .ok (before ++ (Constant.text text').literal ++ after) by
    obtain ⟨before, after, hafter, hput⟩ := hput
    refine ⟨before, after, hafter, ?_, hput⟩
    have hself := hput text
    rw [put_eq_self hx, h] at hself
    exact Except.ok.inj hself
  rw [text_eq_clause] at h
  obtain ⟨returned, hreturned, h⟩ := bind_eq_ok_iff.1 h
  obtain ⟨name, hname, h⟩ := bind_eq_ok_iff.1 h
  obtain ⟨narrowed, hnarrowed, -⟩ := bind_eq_ok_iff.1 h
  match place with
  -- the filter is printed, as a filter with a text in it is not `true`
  | 0 :: place =>
    have hx : q.filter.nodeAt? place = some (.constant (.text text)) := hx
    have hfilter : q.filter.isTrue = false := by
      rw [← Expr.put_eq_self hx]
      exact Expr.isTrue_put hx rfl
    rw [clause, hfilter] at hnarrowed
    obtain ⟨condition, hcondition, -⟩ := map_eq_ok_iff.1 hnarrowed
    obtain ⟨before, after, hafter, hput⟩ := Expr.exists_text_put hcondition hx
    refine ⟨"SELECT VALUE " ++ returned ++ " FROM " ++ name ++ " AS T" ++ " WHERE " ++ before,
      after, hafter, fun text' => ?_⟩
    have hclause : clause s (Expr.put (.constant (.text text')) q.filter place) =
        .ok (" WHERE " ++ (before ++ (Constant.text text').literal ++ after)) := by
      rw [clause, Expr.isTrue_put hx rfl, hput _ _ rfl]
      rfl
    rw [put, text_eq_clause]
    simp only
    rw [hreturned, hname, hclause]
    change Except.ok _ = _
    simp only [String.append_assoc]
  | 1 :: place =>
    have hx : q.returning.nodeAt? place = some (.constant (.text text)) := hx
    obtain ⟨before, after, hafter, hput⟩ := Expr.exists_text_put hreturned hx
    -- behind what is returned stands the scan, and that begins with a blank
    have hfrom : Unquoted (" FROM " ++ (name ++ (" AS T" ++ narrowed))) := by
      simp [Unquoted, Quoted.mark]
    refine ⟨"SELECT VALUE " ++ before, after ++ (" FROM " ++ (name ++ (" AS T" ++ narrowed))),
      hafter.append hfrom, fun text' => ?_⟩
    rw [put, text_eq_clause]
    simp only
    rw [hput _ _ rfl, hname, hnarrowed]
    change Except.ok _ = _
    simp only [String.append_assoc]

/-- **A constant cannot leave its literal.** The literal of a text is read back as the text, with
what follows left over, exactly if what follows does not begin with a quote; and a literal tells its
constant.

In the text of a query, something of the kind follows every text that occurs in it, at whatever
place. If another text is put in that place, the text of the query changes inside the literal only:
what stands before the literal is the same, and so is what is left over when the literal is read. -/
theorem literals_closed :
    (∀ text rest : String,
      Quoted.scan ((Constant.text text).literal ++ rest).toList =
        some (text.toList, rest.toList) ↔ rest.toList.head? ≠ some Quoted.mark) ∧
    Function.Injective Constant.literal ∧
    ∀ (s : Schema) (q : Query) (place : Place) (text t : String),
      q.nodeAt? place = some (.constant (.text text)) → q.text s = .ok t →
      ∃ before after, t = before ++ (Constant.text text).literal ++ after ∧ ∀ text',
        (q.put (.constant (.text text')) place).text s =
          .ok (before ++ (Constant.text text').literal ++ after) ∧
        Quoted.scan ((Constant.text text').literal ++ after).toList =
          some (text'.toList, after.toList) := by
  refine ⟨Constant.scan_literal_iff, fun _ _ => Constant.eq_of_literal_eq,
    fun s q place text t hx h => ?_⟩
  obtain ⟨before, after, hafter, ht, hput⟩ := exists_text_put h hx
  exact ⟨before, after, ht, fun text' =>
    ⟨hput text', (Constant.scan_literal_iff text' after).2 hafter⟩⟩

end Query

/-- The tasks of the board, each with the same label. -/
def Board.labelled (label : String) : Query :=
  ⟨.entitySet ⟨⟨0⟩, 0⟩, .truth, .record [id, .constant (.text label)]⟩

/-- A label that reads like the end of a row is a label all the same. -/
theorem Board.label_closed : ∃ before after,
    (labelled "open").text schema = .ok (before ++ "'open'" ++ after) ∧
    (labelled "'), ROW('").text schema = .ok (before ++ "'''), ROW('''" ++ after) ∧
    Quoted.scan ("'''), ROW('''" ++ after).toList = some ("'), ROW('".toList, after.toList) := by
  have hliteral : (Constant.text "'), ROW('").literal = "'''), ROW('''" := by decide
  obtain ⟨-, -, hqueries⟩ := Query.literals_closed
  obtain ⟨before, after, ht, hput⟩ :=
    hqueries schema (labelled "open") [1, 1] "open" _ rfl rfl
  obtain ⟨htext, hscan⟩ := hput "'), ROW('"
  rw [hliteral] at htext hscan
  exact ⟨before, after, congrArg Except.ok ht, htext, hscan⟩

end QueryViews
