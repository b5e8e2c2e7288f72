import QueryViews.Proofs.Text.Quoted
import QueryViews.Text.Blank
import Mathlib.Data.List.TakeWhile

/-!
# The tokens of a text

The text of a view is a sequence of literals and words (`ofText`). A literal is what stands between
two single quotes, with every quote in it written twice; a word is a stretch without blanks and
quotes. Blanks keep words apart and mean nothing otherwise, except inside a literal, where they are
characters like any other. A text with an unclosed literal has no tokens.

Collapsing blanks does not know literals. It leaves the tokens of a text as they are, up to the
blanks inside literals, where every run of them becomes one space (`ofText_collapse`).
-/

namespace QueryViews

open Quoted (mark double scanBody quote)

/-- A piece of query text: the text in a literal, or a word with no blanks and no quotes in it. -/
inductive Token
  | literal (text : List Char)
  | word (text : List Char)
  deriving DecidableEq

namespace Token

/-- Neither a blank nor a quote. -/
def inWord (c : Char) : Bool := !Blank.isBlank c && decide (c ≠ mark)

theorem length_dropWhile_le {α : Type} (p : α → Bool) (l : List α) :
    (l.dropWhile p).length ≤ l.length :=
  (List.dropWhile_suffix p).length_le

/-- What follows a literal is shorter: the quote was read at least. -/
theorem length_lt_of_scanBody {cs text rest : List Char} (h : scanBody cs = some (text, rest)) :
    rest.length < cs.length := by
  obtain ⟨rfl, -⟩ := Quoted.scanBody_eq_some_iff.1 h
  rw [List.length_append, List.length_cons]
  omega

/-- The tokens of a text; none if it has an unclosed literal. -/
def tokens? : List Char → Option (List Token)
  | [] => some []
  | c :: cs =>
    if Blank.isBlank c then tokens? cs
    else if c = mark then
      match h : scanBody cs with
      | none => none
      | some (text, rest) =>
        have := length_lt_of_scanBody h
        (tokens? rest).map (.literal text :: ·)
    else
      have := length_dropWhile_le inWord cs
      (tokens? (cs.dropWhile inWord)).map (.word (c :: cs.takeWhile inWord) :: ·)
termination_by cs => cs.length
decreasing_by all_goals simp only [List.length_cons]; omega

/-- The tokens of a text. -/
def ofText (text : String) : Option (List Token) := tokens? text.toList

/-- The characters with one space for every run of blanks; `inRun` tells whether blanks stand in
front. -/
def squeezeFrom : Bool → List Char → List Char
  | _, [] => []
  | inRun, c :: cs =>
    if Blank.isBlank c then
      if inRun then squeezeFrom true cs else ' ' :: squeezeFrom true cs
    else c :: squeezeFrom false cs

/-- The token with one space for every run of blanks. There are none in a word. -/
def squeeze : Token → Token
  | literal text => literal (squeezeFrom false text)
  | word text => word text

/-- The only blanks in the literals of the text are single spaces. -/
def Spaced (text : String) : Prop := ∀ tokens ∈ ofText text, tokens.map squeeze = tokens

/-! ## Reading tokens -/

/-- A blank is part of no token. -/
theorem tokens?_blank {c : Char} (hc : Blank.isBlank c = true) (cs : List Char) :
    tokens? (c :: cs) = tokens? cs := by
  rw [tokens?, if_pos hc]

theorem not_isBlank_mark : ¬ Blank.isBlank mark = true := by decide

/-- A literal that no quote follows is a token. -/
theorem tokens?_literal (text : List Char) {rest : List Char} (h : rest.head? ≠ some mark) :
    tokens? (mark :: (double text ++ mark :: rest)) =
      (tokens? rest).map (.literal text :: ·) := by
  rw [tokens?, if_neg not_isBlank_mark, if_pos rfl]
  split
  · rename_i hscan
    cases hscan.symm.trans (Quoted.scanBody_double text h)
  · rename_i text' rest' hscan
    cases hscan.symm.trans (Quoted.scanBody_double text h)
    rfl

/-- A text with an unclosed literal has no tokens. -/
theorem tokens?_unclosed (text : List Char) : tokens? (mark :: double text) = none := by
  rw [tokens?, if_neg not_isBlank_mark, if_pos rfl]
  split
  · rfl
  · rename_i text' rest' hscan
    cases hscan.symm.trans (Quoted.scanBody_eq_none_iff.2 ⟨text, rfl⟩)

/-- A run of characters that are no blanks and no quotes is a token. -/
theorem tokens?_word {c : Char} {cs rest : List Char} (hc : inWord c = true)
    (hcs : ∀ d ∈ cs, inWord d = true) (hrest : ∀ d ∈ rest.head?, inWord d = false) :
    tokens? (c :: (cs ++ rest)) = (tokens? rest).map (.word (c :: cs) :: ·) := by
  obtain ⟨hblank, hmark⟩ : Blank.isBlank c = false ∧ c ≠ mark := by simpa [inWord] using hc
  rw [tokens?, if_neg (Bool.eq_false_iff.1 hblank), if_neg hmark,
    List.takeWhile_append_of_pos hcs, List.dropWhile_append_of_pos hcs]
  cases rest with
  | nil => simp
  | cons d rest =>
    have hd : inWord d = false := hrest d rfl
    rw [List.takeWhile_cons, List.dropWhile_cons, hd]
    simp

/-! ## Collapsing -/

/-- What collapsing makes of characters that stand behind a word; `gap` tells whether there are
blanks in between. -/
def collapseAfter : Bool → List Char → List Char
  | _, [] => []
  | gap, c :: cs =>
    if Blank.isBlank c then collapseAfter true cs
    else (if gap then [' '] else []) ++ c :: collapseAfter false cs

/-- A blank only widens the gap. -/
theorem collapseAfter_blank {c : Char} (hc : Blank.isBlank c = true) (gap : Bool)
    (cs : List Char) : collapseAfter gap (c :: cs) = collapseAfter true cs := by
  rw [collapseAfter, if_pos hc]

/-- What is no blank is taken over, behind one space if there was a gap. -/
theorem collapseAfter_cons {c : Char} (hc : Blank.isBlank c = false) (gap : Bool)
    (cs : List Char) : collapseAfter gap (c :: cs) =
      (if gap then [' '] else []) ++ c :: collapseAfter false cs := by
  rw [collapseAfter, if_neg (Bool.eq_false_iff.1 hc)]

/-- The words that are open and closed at a place of a text, after those in front of it. -/
theorem collapseAfter_eq (cs : List Char) :
    collapseAfter false cs = (cs.foldr Blank.step ([], [])).1 ++
        (cs.foldr Blank.step ([], [])).2.flatMap (' ' :: ·) ∧
      collapseAfter true cs = (Blank.words cs).flatMap (' ' :: ·) := by
  induction cs with
  | nil => exact ⟨rfl, rfl⟩
  | cons c cs ih =>
    obtain ⟨hfalse, htrue⟩ := ih
    rw [Blank.words] at htrue
    rw [Blank.words, List.foldr_cons]
    generalize cs.foldr Blank.step ([], []) = state at hfalse htrue
    obtain ⟨word, rest⟩ := state
    cases hc : Blank.isBlank c with
    | true =>
      rw [collapseAfter_blank hc, collapseAfter_blank hc, htrue, Blank.step, if_pos hc]
      cases word <;> exact ⟨rfl, rfl⟩
    | false =>
      rw [collapseAfter_cons hc, collapseAfter_cons hc, hfalse, Blank.step,
        if_neg (Bool.eq_false_iff.1 hc)]
      exact ⟨rfl, rfl⟩

/-- Words with spaces in between are the first word and then the others, each behind a space. -/
theorem intercalate_cons (word : List Char) (rest : List (List Char)) :
    [' '].intercalate (word :: rest) = word ++ rest.flatMap (' ' :: ·) := by
  induction rest generalizing word with
  | nil => simp
  | cons next rest ih =>
    rw [List.intercalate_cons_cons, ih]
    simp

/-- The space in front of the first word does not matter. -/
theorem tokens?_toList_collapse (text : String) :
    tokens? (Blank.collapse text).toList = tokens? (collapseAfter true text.toList) := by
  rw [(collapseAfter_eq text.toList).2, Blank.collapse, String.toList_ofList]
  cases Blank.words text.toList with
  | nil => rfl
  | cons word rest =>
    rw [intercalate_cons, List.flatMap_cons]
    exact (tokens?_blank (by decide) _).symm

/-! ## Tokens of collapsed text -/

/-- A space in front does not matter to the tokens. -/
theorem tokens?_lead (gap : Bool) (cs : List Char) :
    tokens? ((if gap then [' '] else []) ++ cs) = tokens? cs := by
  cases gap with
  | true => exact tokens?_blank (by decide) cs
  | false => rfl

/-- Behind a word or a literal, collapsing leaves the next character or puts a space. -/
theorem head?_collapseAfter {p : Char → Prop} (hspace : p ' ') {cs : List Char}
    (h : ∀ d ∈ cs.head?, p d) : ∀ d ∈ (collapseAfter false cs).head?, p d := by
  have hgap (cs : List Char) : ∀ d ∈ (collapseAfter true cs).head?, p d := by
    induction cs with
    | nil => nofun
    | cons c cs ih =>
      cases hc : Blank.isBlank c with
      | true => exact collapseAfter_blank hc true cs ▸ ih
      | false =>
        rw [collapseAfter_cons hc]
        rintro d ⟨⟩
        exact hspace
  cases cs with
  | nil => nofun
  | cons c cs =>
    cases hc : Blank.isBlank c with
    | true => exact collapseAfter_blank hc false cs ▸ hgap cs
    | false =>
      rw [collapseAfter_cons hc]
      exact h

/-- In front of a character that is no blank, every run of blanks becomes a space. -/
theorem collapseAfter_append {c : Char} (hc : Blank.isBlank c = false) (gap : Bool)
    (cs rest : List Char) : collapseAfter gap (cs ++ c :: rest) =
      (if gap then [' '] else []) ++ (squeezeFrom gap cs ++ c :: collapseAfter false rest) := by
  induction cs generalizing gap with
  | nil => exact collapseAfter_cons hc gap rest
  | cons d cs ih =>
    rw [List.cons_append, squeezeFrom]
    cases hd : Blank.isBlank d with
    | true =>
      rw [collapseAfter_blank hd, ih, if_pos rfl]
      cases gap <;> rfl
    | false =>
      rw [collapseAfter_cons hd, ih, if_neg Bool.false_ne_true]
      rfl

/-- Quotes may be doubled first: they are no blanks. -/
theorem squeezeFrom_double (inRun : Bool) (cs : List Char) :
    squeezeFrom inRun (double cs) = double (squeezeFrom inRun cs) := by
  induction cs generalizing inRun with
  | nil => rfl
  | cons c cs ih =>
    by_cases hc : c = mark
    · simp only [hc, double, squeezeFrom, if_true, if_neg not_isBlank_mark, ih]
    · have hspace : ' ' ≠ mark := by decide
      rw [double, if_neg hc, squeezeFrom, squeezeFrom]
      split
      · split
        · exact ih true
        · rw [ih, double, if_neg hspace]
      · rw [ih, double, if_neg hc]

/-- The same where a gap may stand in front. -/
theorem collapseAfter_double (gap : Bool) (cs : List Char) :
    collapseAfter gap (double cs) = double (collapseAfter gap cs) := by
  have hmark : Blank.isBlank mark = false := by decide
  have hspace : ' ' ≠ mark := by decide
  induction cs generalizing gap with
  | nil => rfl
  | cons c cs ih =>
    by_cases hc : c = mark
    · rw [hc, double, if_pos rfl, collapseAfter_cons hmark, collapseAfter_cons hmark,
        collapseAfter_cons hmark, ih]
      cases gap <;> simp [double, hspace]
    · rw [double, if_neg hc]
      cases hblank : Blank.isBlank c with
      | true => rw [collapseAfter_blank hblank, collapseAfter_blank hblank, ih]
      | false =>
        rw [collapseAfter_cons hblank, collapseAfter_cons hblank, ih]
        cases gap <;> simp [double, hspace, hc]

/-- There is nothing to collapse in a word. -/
theorem collapseAfter_word {word : List Char} (h : ∀ d ∈ word, Blank.isBlank d = false)
    (rest : List Char) :
    collapseAfter false (word ++ rest) = word ++ collapseAfter false rest := by
  induction word with
  | nil => rfl
  | cons d word ih =>
    obtain ⟨hd, hword⟩ := List.forall_mem_cons.1 h
    rw [List.cons_append, collapseAfter_cons hd, ih hword]
    rfl

/-- Collapsing a text squeezes its tokens, and makes or breaks none. -/
theorem tokens?_collapseAfter (gap : Bool) (cs : List Char) :
    tokens? (collapseAfter gap cs) = (tokens? cs).map (List.map squeeze) := by
  have hmark : Blank.isBlank mark = false := by decide
  fun_induction tokens? cs generalizing gap with
  | case1 => rw [collapseAfter, tokens?]; rfl
  | case2 c cs hc ih => rw [collapseAfter_blank hc, ih]
  | case3 cs hscan =>
    -- an unclosed literal stays one
    obtain ⟨text, rfl⟩ := Quoted.scanBody_eq_none_iff.1 hscan
    rw [collapseAfter_cons hmark, tokens?_lead, collapseAfter_double, tokens?_unclosed]
    rfl
  | case4 cs text rest hscan _ _ ih =>
    -- the quotes at both ends of a literal are no blanks
    obtain ⟨rfl, hrest⟩ := Quoted.scanBody_eq_some_iff.1 hscan
    have hnext : (collapseAfter false rest).head? ≠ some mark := by
      have h : ∀ d ∈ (collapseAfter false rest).head?, d ≠ mark :=
        head?_collapseAfter (by decide) fun d hd heq => hrest (heq ▸ hd)
      exact fun heq => h mark heq rfl
    rw [collapseAfter_cons hmark, tokens?_lead, collapseAfter_append hmark, squeezeFrom_double]
    simp only [Bool.false_eq_true, if_false, List.nil_append]
    rw [tokens?_literal _ hnext, ih, Option.map_map, Option.map_map]
    rfl
  | case5 c cs hblank hc _ ih =>
    have hword : ∀ d ∈ cs.takeWhile inWord, inWord d = true := fun d hd => List.mem_takeWhile_imp hd
    have hnext : ∀ d ∈ (cs.dropWhile inWord).head?, inWord d = false := fun d hd => by
      have h := List.head?_dropWhile_not inWord cs
      rwa [hd] at h
    have hsolid {d : Char} (hd : inWord d = true) : Blank.isBlank d = false := by
      simpa using (Bool.and_eq_true_iff.1 hd).1
    have hc : inWord c = true := by simpa [inWord, hc] using hblank
    have hsplit : collapseAfter false cs =
        cs.takeWhile inWord ++ collapseAfter false (cs.dropWhile inWord) := by
      have h := collapseAfter_word (fun d hd => hsolid (hword d hd)) (cs.dropWhile inWord)
      rwa [List.takeWhile_append_dropWhile] at h
    rw [collapseAfter_cons (hsolid hc), tokens?_lead, hsplit,
      tokens?_word hc hword (head?_collapseAfter (by decide) hnext), ih, Option.map_map,
      Option.map_map]
    rfl

/-- **The tokens of collapsed text.** They are those of the text, with one space for every run of
blanks inside a literal. -/
theorem ofText_collapse (text : String) :
    ofText (Blank.collapse text) = (ofText text).map (List.map squeeze) := by
  rw [ofText, tokens?_toList_collapse, tokens?_collapseAfter, ofText]

/-- Collapsing keeps the tokens of a text whose literals hold single spaces only. -/
theorem Spaced.ofText_collapse {text : String} (h : Spaced text) :
    ofText (Blank.collapse text) = ofText text := by
  rw [Token.ofText_collapse]
  cases htokens : ofText text with
  | none => rfl
  | some tokens => exact congrArg some (h tokens htokens)

end Token
end QueryViews
