import QueryViews.Text.Quoted

/-!
# Quoted text can be read back

`scan` reads a literal back from the front of a text, taking two quotes for one and a lone quote for
the end. What stands behind the opening quote of a text is a literal with something after it, or an
unclosed literal, and `scanBody` tells which (`scanBody_eq_some_iff`, `scanBody_eq_none_iff`).
-/

namespace QueryViews.Quoted

/-- Reads up to the quote that ends a literal: the text read and what follows the literal. -/
def scanBody : List Char → Option (List Char × List Char)
  | [] => none
  | [c] => if c = mark then some ([], []) else none
  | c :: d :: cs =>
    if c = mark then
      if d = mark then (scanBody cs).map fun (s, rest) => (mark :: s, rest)
      else some ([], d :: cs)
    else (scanBody (d :: cs)).map fun (s, rest) => (c :: s, rest)

/-- Reads a literal from the front of a text. -/
def scan : List Char → Option (List Char × List Char)
  | [] => none
  | c :: cs => if c = mark then scanBody cs else none

/-- The characters behind the opening quote of a literal, and what is read from them. -/
theorem scanBody_double (cs : List Char) {rest : List Char} (h : rest.head? ≠ some mark) :
    scanBody (double cs ++ mark :: rest) = some (cs, rest) := by
  induction cs with
  | nil =>
    cases rest with
    | nil => rfl
    | cons d rest =>
      have hd : d ≠ mark := fun heq => h (congrArg some heq)
      rw [double, List.nil_append, scanBody, if_pos rfl, if_neg hd]
  | cons c cs ih =>
    rw [double]
    split
    · rename_i hc
      rw [List.cons_append, List.cons_append, scanBody, if_pos rfl, if_pos rfl, ih, hc]
      rfl
    · rename_i hc
      -- some character follows, if only the closing mark
      obtain ⟨d, tail, heq⟩ : ∃ d tail, double cs ++ mark :: rest = d :: tail :=
        List.exists_cons_of_ne_nil (List.append_ne_nil_of_right_ne_nil _ (List.cons_ne_nil _ _))
      rw [List.cons_append, heq, scanBody, if_neg hc, ← heq, ih]
      rfl

/-- What was read stood there, with a quote behind it and no other one behind that. -/
theorem eq_of_scanBody {cs text rest : List Char} (h : scanBody cs = some (text, rest)) :
    cs = double text ++ mark :: rest ∧ rest.head? ≠ some mark := by
  fun_induction scanBody cs generalizing text rest with
  | case1 => cases h
  | case2 =>
    cases h
    exact ⟨rfl, nofun⟩
  | case3 => cases h
  | case4 cs ih =>
    obtain ⟨⟨text', rest'⟩, hscan, heq⟩ := Option.map_eq_some_iff.1 h
    cases heq
    obtain ⟨rfl, hrest⟩ := ih hscan
    exact ⟨rfl, hrest⟩
  | case5 d cs hd =>
    cases h
    exact ⟨rfl, fun heq => hd (Option.some.inj heq)⟩
  | case6 c d cs hc ih =>
    obtain ⟨⟨text', rest'⟩, hscan, heq⟩ := Option.map_eq_some_iff.1 h
    cases heq
    obtain ⟨heq, hrest⟩ := ih hscan
    rw [double, if_neg hc, heq]
    exact ⟨rfl, hrest⟩

/-- A text is read exactly where its literal stands and no other quote follows. -/
theorem scanBody_eq_some_iff {cs text rest : List Char} : scanBody cs = some (text, rest) ↔
    cs = double text ++ mark :: rest ∧ rest.head? ≠ some mark :=
  ⟨eq_of_scanBody, fun ⟨heq, h⟩ => heq ▸ scanBody_double text h⟩

/-- A literal at the front of a text is read back. -/
theorem scan_quote (cs : List Char) {rest : List Char} (h : rest.head? ≠ some mark) :
    scan (quote cs ++ rest) = some (cs, rest) := by
  rw [quote, List.cons_append, List.append_assoc, scan, if_pos rfl]
  exact scanBody_double cs h

/-- A literal without an end. -/
theorem scanBody_eq_none_iff {cs : List Char} :
    scanBody cs = none ↔ ∃ text, cs = double text := by
  constructor
  · intro h
    fun_induction scanBody cs with
    | case1 => exact ⟨[], rfl⟩
    | case2 => cases h
    | case3 c hc => exact ⟨[c], by rw [double, if_neg hc]; rfl⟩
    | case4 cs ih =>
      obtain ⟨text, rfl⟩ := ih (Option.map_eq_none_iff.1 h)
      exact ⟨mark :: text, rfl⟩
    | case5 => cases h
    | case6 c d cs hc ih =>
      obtain ⟨text, heq⟩ := ih (Option.map_eq_none_iff.1 h)
      exact ⟨c :: text, by rw [double, if_neg hc, heq]⟩
  -- doubled quotes are read in pairs, so no lone one comes up before the end
  · rintro ⟨text, rfl⟩
    induction text with
    | nil => rfl
    | cons c text ih =>
      rw [double]
      split
      · rw [scanBody, if_pos rfl, if_pos rfl, ih]
        rfl
      · rename_i hc
        cases hrest : double text with
        | nil => rw [scanBody, if_neg hc]
        | cons d rest =>
          rw [scanBody, if_neg hc, ← hrest, ih]
          rfl

end QueryViews.Quoted
