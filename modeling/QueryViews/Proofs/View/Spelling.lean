import QueryViews.Proofs.Text.Quoted
import QueryViews.Proofs.View.Phrase
import Mathlib.Data.List.Chain
import Mathlib.Data.List.TakeWhile

/-!
# Spelling

A text can be cut into its lexemes in one way only (`eq_of_spell_eq`), if names are plain: none of
the characters that end a word stands in a name, and a relationship is not called like one of the
words in front of a bracket.

A lexeme starts with a word, which may be empty. Behind the word stands what ends it: a bracket, a
quote, a mark, or what only the type test or only the source of a query has there.
-/

namespace QueryViews

/-- Not one of the characters that end a word. -/
def isSolid (c : Char) : Bool := !([' ', '(', ')', ',', Quoted.mark].contains c)

/-- A lexeme as it is spelt. Names and constants that are spelt alike are the same here. -/
inductive Piece
  | word (w : List Char)
  | quoted (text : List Char)
  | isOf (only : Bool) (type : List Char)
  | opening (w : List Char)
  | ref (set : List Char)
  | source (name : List Char)
  | mark (m : Mark)

namespace Piece

/-- The kinds of pieces. -/
inductive Kind
  | word
  | quoted
  | isOf
  | opening
  | ref
  | source
  | mark

/-- The word in front of the brackets of a reference. -/
def refWord : List Char := ['C', 'r', 'e', 'a', 't', 'e', 'R', 'e', 'f']

/-- The word at the front. -/
def stem : Piece → List Char
  | word w => w
  | quoted _ => []
  | isOf _ _ => ['T']
  | opening w => w
  | ref _ => refWord
  | source _ => []
  | mark _ => []

/-- The mark behind the scanned row in a type test. -/
def testMark : List Char := [' ', 'I', 'S', ' ', 'O', 'F', ' ', '(']

/-- The mark behind the entity set of a reference. -/
def keyMark : List Char := [',', ' ', 'R', 'O', 'W', '(']

/-- The word in front of what is scanned. -/
def fromMark : List Char := [' ', 'F', 'R', 'O', 'M', ' ']

/-- The name that the scanned row is given. -/
def rowMark : List Char := [' ', 'A', 'S', ' ', 'T']

/-- The word for an exact type. -/
def onlyWord : List Char := ['O', 'N', 'L', 'Y']

/-- What stands behind the word at the front. -/
def tail : Piece → List Char
  | word _ => []
  | quoted text => Quoted.quote text
  | isOf only type => testMark ++ ((if only then onlyWord ++ [' '] else []) ++ (type ++ [')']))
  | opening _ => ['(']
  | ref set => '(' :: (set ++ keyMark)
  | source name => fromMark ++ (name ++ rowMark)
  | mark m => m.text.toList

/-- The characters of a piece. -/
def chars (p : Piece) : List Char := p.stem ++ p.tail

/-- The kind of a piece. -/
def kind : Piece → Kind
  | word _ => .word
  | quoted _ => .quoted
  | isOf _ _ => .isOf
  | opening _ => .opening
  | ref _ => .ref
  | source _ => .source
  | mark _ => .mark

/-- Words are made of solid characters. -/
def Legible : Piece → Prop
  | word w => w ≠ [] ∧ ∀ c ∈ w, isSolid c = true
  | quoted _ => True
  | isOf _ type => ∀ c ∈ type, isSolid c = true
  | opening w => w ≠ refWord ∧ ∀ c ∈ w, isSolid c = true
  | ref set => ∀ c ∈ set, isSolid c = true
  | source name => ∀ c ∈ name, isSolid c = true
  | mark _ => True

/-- Nothing but the next piece tells where the piece ends. -/
def isOpen : Piece → Bool
  | word _ => true
  | quoted _ => true
  | _ => false

/-- The piece ends an open one in front of it. -/
def endsOpen : Piece → Bool
  | source _ => true
  | mark _ => true
  | _ => false

/-- What can come behind an open piece: nothing, or what a mark or a source starts with. -/
structure Follows (rest : List Char) : Prop where
  head? : ∀ c ∈ rest.head?, c = ' ' ∨ c = ',' ∨ c = ')'
  noTest : ¬ testMark <+: rest

/-- Words that end at the same place are the same. -/
theorem stem_unique {w w' rest rest' : List Char} (hw : ∀ c ∈ w, isSolid c = true)
    (hw' : ∀ c ∈ w', isSolid c = true) (hrest : ∀ c ∈ rest.head?, isSolid c = false)
    (hrest' : ∀ c ∈ rest'.head?, isSolid c = false) (h : w ++ rest = w' ++ rest') :
    w = w' ∧ rest = rest' := by
  have htake {w rest : List Char} (hw : ∀ c ∈ w, isSolid c = true)
      (hrest : ∀ c ∈ rest.head?, isSolid c = false) : (w ++ rest).takeWhile isSolid = w := by
    rw [List.takeWhile_append_of_pos hw]
    cases rest with
    | nil => simp
    | cons c rest => rw [List.takeWhile_cons_of_neg (by simp [hrest c rfl]), List.append_nil]
  have hstem : w = w' := by rw [← htake hw hrest, h, htake hw' hrest']
  exact ⟨hstem, List.append_cancel_left (hstem ▸ h)⟩

theorem follows_nil : Follows [] := ⟨nofun, by simp [testMark]⟩

/-- A mark can come behind an open piece. -/
theorem follows_mark (m : Mark) (more : List Char) : Follows (m.text.toList ++ more) := by
  cases m with
  | test negated => cases negated <;> exact ⟨by simp [Mark.text], by simp [Mark.text, testMark]⟩
  | _ => exact ⟨by simp [Mark.text], by simp [Mark.text, testMark]⟩

/-- A source can come behind an open piece. -/
theorem follows_source (name more : List Char) : Follows ((source name).tail ++ more) :=
  ⟨by simp [tail, fromMark], by simp [tail, fromMark, testMark]⟩

/-- So can what ends one. -/
theorem follows_of_endsOpen {p : Piece} (hp : p.endsOpen = true) (more : List Char) :
    Follows (p.chars ++ more) := by
  cases p with
  | source name => exact follows_source name more
  | mark m => exact follows_mark m more
  | _ => cases hp

/-- What comes behind an open piece does not go on with its word. -/
theorem Follows.solid {rest : List Char} (h : Follows rest) :
    ∀ c ∈ rest.head?, isSolid c = false := by
  intro c hc
  obtain rfl | rfl | rfl := h.head? c hc <;> decide

theorem Follows.head?_ne {rest : List Char} (h : Follows rest) {c : Char}
    (hc : ¬ (c = ' ' ∨ c = ',' ∨ c = ')')) : rest.head? ≠ some c :=
  fun heq => hc (h.head? c heq)

/-- No mark is the beginning of another one. -/
theorem mark_unique {m m' : Mark} {rest rest' : List Char}
    (h : m.text.toList ++ rest = m'.text.toList ++ rest') : m = m' ∧ rest = rest' := by
  cases m with
  | test negated => cases negated <;> cases m' with
    | test negated' => cases negated' <;> simp_all [Mark.text]
    | _ => simp [Mark.text] at h
  | _ => cases m' with
    | test negated' => cases negated' <;> simp [Mark.text] at h
    | _ => simp_all [Mark.text]

/-- What kind of piece starts a text, by the word at the front and what stands behind it. -/
def kindOf (stem rest : List Char) : Kind :=
  if rest.head? = some '(' then if stem = refWord then .ref else .opening
  else if rest.head? = some Quoted.mark then .quoted
  else if testMark <+: rest then .isOf
  else if stem ≠ [] then .word
  else if fromMark <+: rest then .source
  else .mark

/-- Behind a word that ends there, only a source and a mark have to be told apart. -/
theorem kindOf_of_follows {rest : List Char} (h : Follows rest) (stem : List Char) :
    kindOf stem rest =
      if stem ≠ [] then .word else if fromMark <+: rest then .source else .mark := by
  rw [kindOf, if_neg (h.head?_ne (by decide)), if_neg (h.head?_ne (by decide)), if_neg h.noTest]

/-- The kind of a piece can be told from its characters, whatever may follow. -/
theorem kindOf_eq {p : Piece} (hp : p.Legible) {rest : List Char}
    (hrest : p.isOpen = true → Follows rest) : kindOf p.stem (p.tail ++ rest) = p.kind := by
  cases p with
  | word w => exact (kindOf_of_follows (hrest rfl) w).trans (if_pos hp.1)
  | quoted text => simp [kindOf, tail, kind, Quoted.quote, Quoted.mark]
  | isOf only type => simp [kindOf, tail, kind, Quoted.mark, testMark]
  | opening w => simp [kindOf, stem, tail, kind, hp.1]
  | ref set => simp [kindOf, stem, tail, kind]
  | source name =>
    rw [kindOf_of_follows (follows_source name rest)]
    simp [stem, tail, kind]
  | mark m =>
    have hmark : ¬ fromMark <+: m.text.toList ++ rest := by
      cases m with
      | test negated => cases negated <;> simp [Mark.text, fromMark]
      | _ => simp [Mark.text, fromMark]
    rw [stem, tail, kindOf_of_follows (follows_mark m rest), if_neg hmark]
    rfl

/-- The word at the front of a piece ends where it should. -/
theorem head?_tail (p : Piece) {rest : List Char} (hrest : p.isOpen = true → Follows rest) :
    ∀ c ∈ (p.tail ++ rest).head?, isSolid c = false := by
  cases p with
  | word w => exact (hrest rfl).solid
  | quoted text => simp [tail, Quoted.quote, isSolid]
  | isOf only type => simp [tail, testMark, isSolid]
  | opening w => simp [tail, isSolid]
  | ref set => simp [tail, isSolid]
  | source name => simp [tail, fromMark, isSolid]
  | mark m => exact (follows_mark m rest).solid

/-- The word at the front is made of solid characters. -/
theorem Legible.stem {p : Piece} (hp : p.Legible) : ∀ c ∈ p.stem, isSolid c = true := by
  cases p with
  | word w => exact hp.2
  | opening w => exact hp.2
  | ref set => simp [Piece.stem, refWord, isSolid, Quoted.mark]
  | source name => nofun
  | isOf only type => simp [Piece.stem, isSolid, Quoted.mark]
  | quoted text => nofun
  | mark m => nofun

/-- A type test shows its type, and whether it is the exact one. -/
theorem isOf_unique {only only' : Bool} {type type' rest rest' : List Char}
    (htype : ∀ c ∈ type, isSolid c = true) (htype' : ∀ c ∈ type', isSolid c = true)
    (h : (isOf only type).tail ++ rest = (isOf only' type').tail ++ rest') :
    isOf only type = isOf only' type' ∧ rest = rest' := by
  have hsolid : ∀ c ∈ onlyWord, isSolid c = true := by simp [onlyWord, isSolid, Quoted.mark]
  have hclose (rest : List Char) : ∀ c ∈ (')' :: rest).head?, isSolid c = false := by
    rintro c ⟨⟩
    decide
  have hspace (rest : List Char) : ∀ c ∈ (' ' :: rest).head?, isSolid c = false := by
    rintro c ⟨⟩
    decide
  -- behind the word `ONLY` comes a space, behind a type a bracket
  have hword (only : Bool) (type rest : List Char) : (isOf only type).tail ++ rest = testMark ++
      if only then onlyWord ++ ' ' :: (type ++ ')' :: rest) else type ++ ')' :: rest := by
    cases only <;> simp [tail]
  rw [hword, hword] at h
  have h := List.append_cancel_left h
  cases only <;> cases only'
  · obtain ⟨rfl, hrest⟩ := stem_unique htype htype' (hclose rest) (hclose rest') h
    exact ⟨rfl, List.tail_eq_of_cons_eq hrest⟩
  · obtain ⟨-, hrest⟩ := stem_unique htype hsolid (hclose rest) (hspace _) h
    exact absurd (List.head_eq_of_cons_eq hrest) (by decide)
  · obtain ⟨-, hrest⟩ := stem_unique hsolid htype' (hspace _) (hclose rest') h
    exact absurd (List.head_eq_of_cons_eq hrest) (by decide)
  · have h := List.tail_eq_of_cons_eq (List.append_cancel_left h)
    obtain ⟨rfl, hrest⟩ := stem_unique htype htype' (hclose rest) (hclose rest') h
    exact ⟨rfl, List.tail_eq_of_cons_eq hrest⟩

/-- A piece can be told from what follows. -/
theorem unique {p p' : Piece} {rest rest' : List Char} (hp : p.Legible) (hp' : p'.Legible)
    (hrest : p.isOpen = true → Follows rest) (hrest' : p'.isOpen = true → Follows rest')
    (h : p.chars ++ rest = p'.chars ++ rest') : p = p' ∧ rest = rest' := by
  rw [chars, chars, List.append_assoc, List.append_assoc] at h
  obtain ⟨hstem, htail⟩ :=
    stem_unique hp.stem hp'.stem (p.head?_tail hrest) (p'.head?_tail hrest') h
  -- the stem and the character behind it tell what kind of piece it is
  have hkind : p.kind = p'.kind := by
    rw [← kindOf_eq hp hrest, ← kindOf_eq hp' hrest', hstem, htail]
  cases p <;> cases p' <;> first | (cases hkind; done) | skip
  case word.word w w' => exact ⟨congrArg word hstem, htail⟩
  case quoted.quoted text text' =>
    have hread (text : List Char) {rest : List Char} (hrest : Follows rest) :
        Quoted.scan (Quoted.quote text ++ rest) = some (text, rest) :=
      Quoted.scan_quote text (hrest.head?_ne (by decide))
    have heq := (hread text (hrest rfl)).symm.trans (htail ▸ hread text' (hrest' rfl))
    cases heq
    exact ⟨rfl, rfl⟩
  case isOf.isOf => exact isOf_unique hp hp' htail
  case opening.opening w w' => exact ⟨congrArg opening hstem, List.append_cancel_left htail⟩
  case ref.ref set set' =>
    simp only [tail, List.cons_append, List.append_assoc] at htail
    obtain ⟨rfl, hrest⟩ := stem_unique hp hp' (by simp [keyMark, isSolid])
      (by simp [keyMark, isSolid]) (List.tail_eq_of_cons_eq htail)
    exact ⟨rfl, List.append_cancel_left hrest⟩
  case source.source name name' =>
    simp only [tail, List.append_assoc] at htail
    obtain ⟨rfl, hrest⟩ := stem_unique hp hp' (by simp [rowMark, isSolid])
      (by simp [rowMark, isSolid]) (List.append_cancel_left htail)
    exact ⟨rfl, List.append_cancel_left hrest⟩
  case mark.mark m m' =>
    obtain ⟨rfl, hrest⟩ := mark_unique htail
    exact ⟨rfl, hrest⟩

end Piece

/-! ## Rows of pieces -/

namespace Piece

/-- Behind an open piece comes one that ends it. -/
def Before (p next : Piece) : Prop := p.isOpen = true → next.endsOpen = true

/-- What comes behind an open piece in a row can come behind it. -/
theorem follows {p : Piece} {rest : List Piece} (h : (p :: rest).IsChain Before)
    (hp : p.isOpen = true) : Follows (rest.flatMap chars) := by
  cases rest with
  | nil => exact follows_nil
  | cons next rest => exact follows_of_endsOpen ((List.isChain_cons_cons.1 h).1 hp) _

/-- Every piece has characters. -/
theorem chars_ne_nil {p : Piece} (hp : p.Legible) : p.chars ≠ [] := by
  cases p with
  | word w => simpa [chars, stem, tail] using hp.1
  | mark m =>
    cases m with
    | test negated => cases negated <;> simp [chars, stem, tail, Mark.text]
    | _ => simp [chars, stem, tail, Mark.text]
  | _ => simp [chars, stem, tail, Quoted.quote, refWord, fromMark]

/-- A row of pieces can be read off its characters. -/
theorem eq_of_flatMap_chars_eq {l l' : List Piece} (hl : ∀ p ∈ l, p.Legible)
    (hl' : ∀ p ∈ l', p.Legible) (hs : l.IsChain Before) (hs' : l'.IsChain Before)
    (h : l.flatMap chars = l'.flatMap chars) : l = l' := by
  induction l generalizing l' with
  | nil =>
    cases l' with
    | nil => rfl
    | cons p' l' =>
      rw [List.flatMap_cons] at h
      exact absurd (List.append_eq_nil_iff.1 h.symm).1 (chars_ne_nil (hl' p' List.mem_cons_self))
  | cons p l ih =>
    cases l' with
    | nil =>
      rw [List.flatMap_cons] at h
      exact absurd (List.append_eq_nil_iff.1 h).1 (chars_ne_nil (hl p List.mem_cons_self))
    | cons p' l' =>
      rw [List.flatMap_cons, List.flatMap_cons] at h
      obtain ⟨hp, hl⟩ := List.forall_mem_cons.1 hl
      obtain ⟨hp', htail⟩ := List.forall_mem_cons.1 hl'
      -- the first pieces are told from what follows them
      obtain ⟨rfl, hrest⟩ := unique hp hp' (follows hs) (follows hs') h
      exact congrArg (p :: ·) (ih hl htail hs.tail hs'.tail hrest)

end Piece

/-! ## Constants -/

namespace Constant

/-- A number is written with digits. -/
theorem isDigit_of_mem_repr {n : Nat} {c : Char} (h : c ∈ n.repr.toList) : c.isDigit = true := by
  rw [Nat.toList_repr] at h
  exact Nat.isDigit_of_mem_toDigits (by decide) (by decide) h

/-- The characters of a number. -/
theorem mem_literal_int {i : Int64} {c : Char} (h : c ∈ (Constant.int i).literal.toList) :
    c = '-' ∨ c.isDigit = true := by
  change c ∈ i.toInt.repr.toList at h
  rw [Int.repr_eq_if] at h
  split at h
  · exact .inr (isDigit_of_mem_repr h)
  · rw [String.toList_append, List.mem_append] at h
    exact h.imp (by simp) isDigit_of_mem_repr

/-- A number is read back from its digits; only a negative one has a sign in front of them. -/
theorem int_eq_of_literal_eq {i i' : Int64}
    (h : (Constant.int i).literal = (Constant.int i').literal) : i = i' := by
  have hdigits {m n : Nat} (h : m.repr = n.repr) : m = n := by
    have hread := congrArg (fun text => Nat.ofDigitChars 10 text.toList 0) h
    simpa only [Nat.toList_repr, Nat.ofDigitChars_ten_toDigits] using hread
  -- a natural number has no sign
  have hsign {m n : Nat} (h : m.repr = "-" ++ n.repr) : False := by
    have hmem : '-' ∈ m.repr.toList := by
      rw [h, String.toList_append]
      exact List.mem_append_left _ List.mem_cons_self
    cases isDigit_of_mem_repr hmem
  change i.toInt.repr = i'.toInt.repr at h
  rw [Int.repr_eq_if, Int.repr_eq_if] at h
  refine Int64.toInt_inj.1 ?_
  split at h <;> split at h
  · have habs := hdigits h
    omega
  · exact (hsign h).elim
  · exact (hsign h.symm).elim
  · have habs := hdigits (String.append_right_inj "-" |>.1 h)
    omega

/-- The literals that are words: all but those of texts. -/
inductive IsWord : Constant → Prop
  | bool (b : Bool) : IsWord (.bool b)
  | int (i : Int64) : IsWord (.int i)
  | null : IsWord .null

/-- A literal that is a word is a solid one, without a point. -/
theorem IsWord.literal {value : Constant} (h : value.IsWord) :
    value.literal.toList ≠ [] ∧ ∀ c ∈ value.literal.toList, isSolid c = true ∧ c ≠ '.' := by
  cases h with
  | bool b => cases b <;> simp [Constant.literal, isSolid, Quoted.mark]
  | null => simp [Constant.literal, isSolid, Quoted.mark]
  | int i =>
    constructor
    · intro h
      change i.toInt.repr.toList = [] at h
      rw [Int.repr_eq_if] at h
      split at h
      · rw [Nat.toList_repr] at h
        exact Nat.toDigits_ne_nil h
      · simp at h
    · intro c hc
      -- an integer has no other characters than digits and a sign
      have hnot {d : Char} (hd : d ≠ '-') (hdigit : d.isDigit = false) : c ≠ d := by
        rintro rfl
        obtain rfl | h := mem_literal_int hc
        · exact hd rfl
        · cases h.symm.trans hdigit
      refine ⟨?_, hnot (by decide) (by decide)⟩
      simp only [isSolid, Bool.not_eq_true', List.contains_eq_mem, List.mem_cons,
        List.not_mem_nil, or_false, decide_eq_false_iff_not, not_or]
      exact ⟨hnot (by decide) (by decide), hnot (by decide) (by decide),
        hnot (by decide) (by decide), hnot (by decide) (by decide), hnot (by decide) (by decide)⟩

/-- Of literals that are words, no two are spelt alike. -/
theorem literal_injective {value value' : Constant} (h : value.IsWord) (h' : value'.IsWord)
    (heq : value.literal = value'.literal) : value = value' := by
  -- an integer is spelt with digits and a sign only, and every other literal has a letter
  have hint (i : Int64) {t : String} (ht : ∃ c ∈ t.toList, c ≠ '-' ∧ c.isDigit = false) :
      (Constant.int i).literal ≠ t := by
    rintro rfl
    obtain ⟨c, hc, hne, hdigit⟩ := ht
    obtain rfl | h := mem_literal_int hc
    · exact hne rfl
    · cases h.symm.trans hdigit
  cases h with
  | bool b => cases h' with
    | bool b' => cases b <;> cases b' <;> simp_all [Constant.literal]
    | int i => cases b with
      | true => exact absurd heq.symm (hint i ⟨'t', by decide⟩)
      | false => exact absurd heq.symm (hint i ⟨'f', by decide⟩)
    | null => cases b <;> simp [Constant.literal] at heq
  | int i => cases h' with
    | bool b' => cases b' with
      | true => exact absurd heq (hint i ⟨'t', by decide⟩)
      | false => exact absurd heq (hint i ⟨'f', by decide⟩)
    | int i' =>
      rw [int_eq_of_literal_eq heq]
    | null => exact absurd heq (hint i ⟨'N', by decide⟩)
  | null => cases h' with
    | bool b' => cases b' <;> simp [Constant.literal] at heq
    | int i' => exact absurd heq.symm (hint i' ⟨'N', by decide⟩)
    | null => rfl

end Constant

/-! ## Lexemes -/

/-- None of the characters that end a word stands in the name. -/
def Plain (name : String) : Prop := ∀ c ∈ name.toList, isSolid c = true

namespace Lexeme

/-- How a lexeme is spelt. -/
def piece : Lexeme → Piece
  | .atom (.field name) => .word ('T' :: '.' :: name.toList)
  | .atom (.isOf only type) => .isOf only type.toList
  | .atom (.constant (.text text)) => .quoted text.toList
  | .atom (.constant value) => .word value.literal.toList
  | .opening .record => .opening ['R', 'O', 'W']
  | .opening (.ref set) => .ref set.toList
  | .opening (.relationship name) => .opening name.toList
  | .source name => .source name.toList
  | .mark m => .mark m

/-- A lexeme is spelt as its piece. -/
theorem chars_piece (x : Lexeme) : x.piece.chars = x.text.toList := by
  cases x with
  | atom a =>
    cases a with
    | field name => simp [piece, Piece.chars, Piece.stem, Piece.tail, text, Phrase.Atom.text]
    | isOf only type =>
      cases only <;> simp [piece, Piece.chars, Piece.stem, Piece.tail, Piece.testMark,
        Piece.onlyWord, text, Phrase.Atom.text]
    | constant value =>
      cases value <;> simp [piece, Piece.chars, Piece.stem, Piece.tail, text, Phrase.Atom.text,
        Constant.literal]
  | opening head =>
    cases head <;> simp [piece, Piece.chars, Piece.stem, Piece.tail, Piece.refWord, Piece.keyMark,
      text, Phrase.Head.text]
  | source name =>
    simp [piece, Piece.chars, Piece.stem, Piece.tail, Piece.fromMark, Piece.rowMark, text]
  | mark m => rfl

/-- A lexeme that can be told by its spelling: names are plain, and a relationship is not called
like one of the words in front of other brackets. -/
inductive Legible : Lexeme → Prop
  | field {name : String} (h : Plain name) : Legible (.atom (.field name))
  | isOf (only : Bool) {type : String} (h : Plain type) : Legible (.atom (.isOf only type))
  | constant (value : Constant) : Legible (.atom (.constant value))
  | record : Legible (.opening .record)
  | ref {set : String} (h : Plain set) : Legible (.opening (.ref set))
  | relationship {name : String} (h : Plain name) (hrecord : name ≠ "ROW")
      (href : name ≠ "CreateRef") : Legible (.opening (.relationship name))
  | source {name : String} (h : Plain name) : Legible (.source name)
  | mark (m : Mark) : Legible (.mark m)

/-- A constant that is a word is spelt as one. -/
theorem piece_constant {value : Constant} (h : value.IsWord) :
    piece (.atom (.constant value)) = .word value.literal.toList := by
  cases h <;> rfl

/-- A constant is spelt as a quoted text or as a word. -/
theorem constant_cases (value : Constant) : (∃ text, value = .text text) ∨ value.IsWord := by
  cases value with
  | text text => exact .inl ⟨text, rfl⟩
  | bool b => exact .inr (.bool b)
  | int i => exact .inr (.int i)
  | null => exact .inr .null

/-- A lexeme that can be told is spelt in solid words. -/
theorem Legible.piece {x : Lexeme} (h : x.Legible) : x.piece.Legible := by
  cases h with
  | field h =>
    refine ⟨List.cons_ne_nil _ _, ?_⟩
    simpa [isSolid, Quoted.mark, Plain] using h
  | isOf only h => exact h
  | constant value =>
    obtain ⟨text, rfl⟩ | hword := constant_cases value
    · trivial
    · rw [piece_constant hword]
      exact ⟨hword.literal.1, fun c hc => (hword.literal.2 c hc).1⟩
  | record => simp [Lexeme.piece, Piece.Legible, Piece.refWord, isSolid, Quoted.mark]
  | ref h => exact h
  | relationship h hrecord href =>
    exact ⟨fun heq => href (String.toList_inj.1 (heq.trans (by simp [Piece.refWord]))), h⟩
  | source h => exact h
  | mark m => trivial

/-- A constant that is spelt as a word has no point in it. -/
theorem constant_of_word {value : Constant} {w : List Char}
    (h : piece (.atom (.constant value)) = .word w) :
    value.IsWord ∧ value.literal.toList = w ∧ '.' ∉ w := by
  obtain ⟨text, rfl⟩ | hword := constant_cases value
  · cases h
  · obtain rfl : value.literal.toList = w := Piece.word.inj ((piece_constant hword).symm.trans h)
    exact ⟨hword, rfl, fun hpoint => (hword.literal.2 '.' hpoint).2 rfl⟩

/-- The word of a field has a point in it, that of a constant none. -/
theorem eq_of_word_eq {x x' : Lexeme} {w : List Char} (hx : x.piece = .word w)
    (hx' : x'.piece = .word w) : x = x' := by
  have hcases {x : Lexeme} (hx : x.piece = .word w) :
      (∃ name, x = .atom (.field name) ∧ 'T' :: '.' :: name.toList = w) ∨
        ∃ value, x = .atom (.constant value) := by
    rcases x with (name | _ | value) | (_ | _ | _) | _ | _
    case atom.field => exact .inl ⟨name, rfl, Piece.word.inj hx⟩
    case atom.constant => exact .inr ⟨value, rfl⟩
    all_goals cases hx
  obtain ⟨name, rfl, rfl⟩ | ⟨value, rfl⟩ := hcases hx
  · obtain ⟨name', rfl, heq⟩ | ⟨value', rfl⟩ := hcases hx'
    · rw [String.toList_inj.1 (List.cons.inj (List.cons.inj heq).2).2]
    · exact absurd (by simp) (constant_of_word hx').2.2
  · obtain ⟨hword, hliteral, hnone⟩ := constant_of_word hx
    obtain ⟨name', rfl, rfl⟩ | ⟨value', rfl⟩ := hcases hx'
    · exact absurd (by simp) hnone
    · obtain ⟨hword', hliteral', -⟩ := constant_of_word hx'
      rw [Constant.literal_injective hword hword'
        (String.toList_inj.1 (hliteral.trans hliteral'.symm))]

/-- The word in front of a bracket tells the head. -/
theorem eq_of_opening_eq {x x' : Lexeme} (h : x.Legible) (h' : x'.Legible) {w : List Char}
    (hx : x.piece = .opening w) (hx' : x'.piece = .opening w) : x = x' := by
  have hcases {x : Lexeme} (h : x.Legible) (hx : x.piece = .opening w) :
      (x = .opening .record ∧ w = ['R', 'O', 'W']) ∨
        ∃ name, x = .opening (.relationship name) ∧ name ≠ "ROW" ∧ name.toList = w := by
    rcases x with (_ | _ | (_ | _ | _ | _)) | (_ | _ | name) | _ | _
    case opening.record => exact .inl ⟨rfl, (Piece.opening.inj hx).symm⟩
    case opening.relationship =>
      cases h with
      | relationship _ hrecord _ => exact .inr ⟨name, rfl, hrecord, Piece.opening.inj hx⟩
    all_goals cases hx
  have hrow {name : String} (hne : name ≠ "ROW") : name.toList ≠ ['R', 'O', 'W'] :=
    fun heq => hne (String.toList_inj.1 (heq.trans (by simp)))
  obtain ⟨rfl, rfl⟩ | ⟨name, rfl, hne, rfl⟩ := hcases h hx
  · obtain ⟨rfl, -⟩ | ⟨name', rfl, hne', heq⟩ := hcases h' hx'
    · rfl
    · exact absurd heq (hrow hne')
  · obtain ⟨rfl, heq⟩ | ⟨name', rfl, -, heq⟩ := hcases h' hx'
    · exact absurd heq (hrow hne)
    · rw [String.toList_inj.1 heq]

/-- The one lexeme that is spelt in this way; none where that takes a look at the word. -/
def ofPiece? : Piece → Option Lexeme
  | .quoted text => some (.atom (.constant (.text (String.ofList text))))
  | .isOf only type => some (.atom (.isOf only (String.ofList type)))
  | .ref set => some (.opening (.ref (String.ofList set)))
  | .source name => some (.source (String.ofList name))
  | .mark m => some (.mark m)
  | .word _ => none
  | .opening _ => none

/-- The lexeme that a spelling stands for is the one that was spelt. -/
theorem eq_of_ofPiece? {x y : Lexeme} (h : ofPiece? x.piece = some y) : x = y := by
  rcases x with (_ | _ | (_ | _ | _ | _)) | (_ | _ | _) | _ | _ <;>
    simp_all [piece, ofPiece?]

/-- Lexemes that can be told, and are spelt alike, are the same. -/
theorem Legible.eq_of_piece_eq {x x' : Lexeme} (h : x.Legible) (h' : x'.Legible)
    (heq : x.piece = x'.piece) : x = x' := by
  cases hof : ofPiece? x.piece with
  | some y => exact (eq_of_ofPiece? hof).trans (eq_of_ofPiece? (heq ▸ hof)).symm
  | none =>
    cases hp : x.piece with
    | word w => exact eq_of_word_eq hp (heq ▸ hp)
    | opening w => exact eq_of_opening_eq h h' hp (heq ▸ hp)
    | _ => simp [hp, ofPiece?] at hof

/-- The same of rows of lexemes. -/
theorem eq_of_map_piece_eq {l l' : List Lexeme} (hl : ∀ x ∈ l, x.Legible)
    (hl' : ∀ x ∈ l', x.Legible) (h : l.map piece = l'.map piece) : l = l' := by
  induction l generalizing l' with
  | nil => exact (List.map_eq_nil_iff.1 h.symm).symm
  | cons x l ih =>
    cases l' with
    | nil => cases h
    | cons x' l' =>
      obtain ⟨hx, hl⟩ := List.forall_mem_cons.1 hl
      obtain ⟨hx', htail⟩ := List.forall_mem_cons.1 hl'
      obtain ⟨hpiece, hrest⟩ := List.cons.inj h
      rw [hx.eq_of_piece_eq hx' hpiece, ih hl htail hrest]

/-- Behind an atom comes something that ends it. -/
def Before (x next : Lexeme) : Prop := x.piece.Before next.piece

theorem mark_before (m : Mark) (next : Lexeme) : Before (.mark m) next := nofun

theorem source_before (name : String) (next : Lexeme) : Before (.source name) next := nofun

theorem opening_before (head : Phrase.Head) (next : Lexeme) : Before (.opening head) next := by
  cases head <;> nofun

theorem before_mark (x : Lexeme) (m : Mark) : Before x (.mark m) := fun _ => rfl

theorem before_source (x : Lexeme) (name : String) : Before x (.source name) := fun _ => rfl

end Lexeme

/-- A row of lexemes is spelt as its pieces. -/
theorem toList_spell (l : List Lexeme) :
    (spell l).toList = (l.map Lexeme.piece).flatMap Piece.chars := by
  induction l with
  | nil => rfl
  | cons x l ih =>
    rw [spell_cons, String.toList_append, ih, List.map_cons, List.flatMap_cons,
      Lexeme.chars_piece]

/-- A text can be cut into legible lexemes in one way only. -/
theorem eq_of_spell_eq {l l' : List Lexeme} (hl : ∀ x ∈ l, x.Legible) (hl' : ∀ x ∈ l', x.Legible)
    (hs : l.IsChain Lexeme.Before) (hs' : l'.IsChain Lexeme.Before) (h : spell l = spell l') :
    l = l' := by
  have hlegible {l : List Lexeme} (hl : ∀ x ∈ l, x.Legible) :
      ∀ p ∈ l.map Lexeme.piece, p.Legible := by
    simpa using fun x hx => (hl x hx).piece
  refine Lexeme.eq_of_map_piece_eq hl hl' (Piece.eq_of_flatMap_chars_eq (hlegible hl)
    (hlegible hl') ((List.isChain_map _).2 hs) ((List.isChain_map _).2 hs') ?_)
  rw [← toList_spell, ← toList_spell, h]

end QueryViews
