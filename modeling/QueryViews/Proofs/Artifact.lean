import QueryViews.Artifact
import QueryViews.Proofs.OrderedMap
import QueryViews.Proofs.Outcome
import QueryViews.Proofs.Text.Json
import Mathlib.Data.List.DropRight

/-!
# Documents read back

The document of an artifact is read back as the artifact (`Artifact.parse_document`).

A text is **read** as a value (`Json.Reads`) if the reader takes exactly that text from the front
of a longer one, at every depth from a certain one on. String literals are, and so are objects
written with `Artifact.braces` whose members' values are.
-/

namespace QueryViews

namespace Json

/-- From the depth `bound` on, the text is read as the value, whatever follows it. -/
def Reads (text : List Char) (j : Json) (bound : Nat) : Prop :=
  ∀ depth rest, bound ≤ depth → value depth (text ++ rest) = some (j, rest)

/-- What is read within a depth is read within any larger one. -/
theorem Reads.mono {text : List Char} {j : Json} {bound bound' : Nat} (h : Reads text j bound)
    (hle : bound ≤ bound') : Reads text j bound' :=
  fun depth rest hdepth => h depth rest (Nat.le_trans hle hdepth)

/-- Nothing is skipped in front of a character that is not a blank. -/
theorem skipBlanks_of_not_blank {c : Char}
    (h : (c = ' ' || c = '\n' || c = '\t' || c = '\r') = false) (cs : List Char) :
    skipBlanks (c :: cs) = c :: cs := by
  rw [skipBlanks, List.dropWhile_cons, h]
  rfl

theorem skipBlanks_idempotent (cs : List Char) : skipBlanks (skipBlanks cs) = skipBlanks cs :=
  List.dropWhile_idempotent _ cs

/-- A line break and an indentation are blanks. -/
theorem skipBlanks_indent (indent : Nat) (cs : List Char) :
    skipBlanks ('\n' :: (List.replicate indent ' ' ++ cs)) = skipBlanks cs := by
  have hspaces : ∀ n, skipBlanks (List.replicate n ' ' ++ cs) = skipBlanks cs := by
    intro n
    induction n with
    | zero => rfl
    | succ n ih => exact ih
  exact hspaces indent

/-- A blank in front of a value is skipped. -/
theorem value_space (depth : Nat) (cs : List Char) : value depth (' ' :: cs) = value depth cs := by
  cases depth <;> rfl

/-- Blanks in front of members are skipped. -/
theorem members_skipBlanks (depth : Nat) (cs : List Char) :
    members depth (skipBlanks cs) = members depth cs := by
  cases depth with
  | zero => rfl
  | succ depth => rw [members, members, skipBlanks_idempotent]

/-- A text is read back from its literal. -/
theorem reads_quote (s : String) : Reads (quote s) (.string (some s)) 1 := by
  intro depth rest h
  obtain ⟨depth, rfl⟩ := Nat.exists_eq_add_of_le' h
  have hquote : quote s ++ rest = '"' :: (s.toList.flatMap escape ++ '"' :: rest) := by
    rw [quote, List.cons_append, List.append_assoc]
    rfl
  rw [hquote, value, skipBlanks_of_not_blank (by decide)]
  simp only [if_pos, literal_quote]
  rfl

end Json

namespace Artifact

open Json

/-- A member that is read as its name and a value, and what follows it. -/
theorem members_member {indent depth bound : Nat} {name : String} {text : List Char} {j : Json}
    (h : Reads text j bound) (hdepth : bound ≤ depth) (rest : List Char) :
    members (depth + 1) (member indent name text ++ rest) =
      match skipBlanks rest with
      | ',' :: rest => do
        let (ms, rest) ← members depth rest
        return ((some name, j) :: ms, rest)
      | '\x7d' :: rest => some ([(some name, j)], rest)
      | _ => none := by
  have hmember : member indent name text ++ rest = '\n' :: (List.replicate indent ' ' ++
      '"' :: (name.toList.flatMap escape ++ '"' :: ':' :: ' ' :: (text ++ rest))) := by
    simp only [member, quote, List.cons_append, List.append_assoc, List.nil_append]
  rw [hmember, members, skipBlanks_indent, skipBlanks_of_not_blank (by decide)]
  simp only [literal_quote]
  simp only [Option.bind_eq_bind, Option.bind_some]
  rw [skipBlanks_of_not_blank (by decide)]
  simp only [value_space, h depth rest hdepth, Option.bind_some]
  rfl

/-- A name, what is written as its value, and the value that this is read as. -/
structure Entry where
  name : String
  text : List Char
  value : Json

/-- Members between commas, and the brace after them on a line of its own. -/
theorem members_intercalate (indent indent' : Nat) {bound : Nat} {entries : List Entry}
    (hne : entries ≠ []) (h : ∀ e ∈ entries, Reads e.text e.value bound) {depth : Nat}
    (hdepth : bound + entries.length ≤ depth) (rest : List Char) :
    members depth ([','].intercalate (entries.map fun e => member indent e.name e.text) ++
        '\n' :: (List.replicate indent' ' ' ++ '\x7d' :: rest)) =
      some (entries.map fun e => (some e.name, e.value), rest) := by
  induction entries generalizing depth with
  | nil => exact absurd rfl hne
  | cons e entries ih =>
    rw [List.length_cons] at hdepth
    cases depth with
    | zero => omega
    | succ depth =>
      have he := h e List.mem_cons_self
      cases entries with
      -- the last member: a brace follows instead of a comma
      | nil =>
        rw [List.map_singleton, List.intercalate_singleton, members_member he (by omega),
          skipBlanks_indent, skipBlanks_of_not_blank (by decide)]
        rfl
      | cons e' entries =>
        have hrest := ih (List.cons_ne_nil _ _) (fun e he => h e (List.mem_cons_of_mem _ he))
          (Nat.le_of_succ_le_succ hdepth)
        simp only [List.map_cons] at hrest ⊢
        rw [List.intercalate_cons_cons, List.append_assoc, List.append_assoc,
          members_member he (by omega), List.singleton_append,
          skipBlanks_of_not_blank (by decide)]
        simp only [hrest]
        rfl

/-- Behind the blanks before the first member stands the quote that opens its name. -/
theorem exists_skipBlanks_intercalate (indent : Nat) (e : Entry) (entries : List Entry)
    (rest : List Char) : ∃ more, skipBlanks ([','].intercalate
      ((e :: entries).map fun e => member indent e.name e.text) ++ rest) = '"' :: more := by
  have hfirst (more : List Char) : skipBlanks (member indent e.name e.text ++ more) =
      '"' :: (e.name.toList.flatMap escape ++ '"' :: ':' :: ' ' :: (e.text ++ more)) := by
    simp only [member, quote, List.cons_append, List.append_assoc, List.nil_append]
    rw [skipBlanks_indent, skipBlanks_of_not_blank (by decide)]
  cases entries with
  | nil =>
    rw [List.map_singleton, List.intercalate_singleton]
    exact ⟨_, hfirst rest⟩
  | cons e' entries =>
    rw [List.map_cons, List.map_cons, List.intercalate_cons_cons, List.append_assoc,
      List.append_assoc]
    exact ⟨_, hfirst _⟩

/-- An object is read as one, with the members in their order. -/
theorem reads_braces (indent indent' : Nat) {bound : Nat} {entries : List Entry}
    (h : ∀ e ∈ entries, Reads e.text e.value bound) :
    Reads (braces indent' (entries.map fun e => member indent e.name e.text))
      (.object (entries.map fun e => (some e.name, e.value))) (bound + entries.length + 1) := by
  intro depth rest hdepth
  cases depth with
  | zero => omega
  | succ depth =>
    cases entries with
    | nil =>
      rw [List.map_nil, braces, value, List.cons_append, skipBlanks_of_not_blank (by decide)]
      rfl
    | cons e entries =>
      have hmembers := members_intercalate indent indent' (List.cons_ne_nil e entries) h
         (Nat.le_of_succ_le_succ hdepth) rest
      have hbraces : braces indent' ((e :: entries).map fun e => member indent e.name e.text) ++
          rest = '\x7b' :: ([','].intercalate ((e :: entries).map fun e =>
            member indent e.name e.text) ++
              '\n' :: (List.replicate indent' ' ' ++ '\x7d' :: rest)) := by
        simp only [List.map_cons, braces, List.cons_append, List.append_assoc, List.nil_append]
      -- the first member begins with a quote, behind blanks that are skipped
      obtain ⟨more, hmore⟩ := exists_skipBlanks_intercalate indent e entries
        ('\n' :: (List.replicate indent' ' ' ++ '\x7d' :: rest))
      rw [← members_skipBlanks, hmore] at hmembers
      rw [hbraces, value, skipBlanks_of_not_blank (by decide)]
      simp only [hmore]
      change (do
        let (ms, rest) ← members depth ('"' :: more)
        return (Json.object ms, rest)) = _
      rw [hmembers]
      rfl

/-- The depth that a reader may use up is at least the number of members, since each takes up a
character. -/
theorem length_le_braces (indent : Nat) (ms : List (List Char)) :
    ms.length ≤ (braces indent ms).length := by
  have hcommas : ms.length ≤ ([','].intercalate ms).length + 1 := by
    induction ms with
    | nil => exact Nat.zero_le _
    | cons m ms ih =>
      cases ms with
      | nil => exact Nat.le_add_left 1 _
      | cons m' ms =>
        simp only [List.intercalate_cons_cons, List.length_append, List.length_cons,
          List.length_nil] at ih ⊢
        omega
  cases ms with
  | nil => exact Nat.zero_le _
  | cons m ms =>
    simp only [braces, List.length_cons, List.length_append] at hcommas ⊢
    omega

/-- The members that hold the texts of views. -/
def viewEntries (views : OrderedMap String String) : List Entry :=
  views.entries.map fun (name, text) => ⟨name, quote text, .string (some text)⟩

/-- The members of the document of an artifact. -/
def entries (a : Artifact) : List Entry := [
  ⟨"container_pair", quote a.pair, .string (some a.pair)⟩,
  ⟨"hash", quote a.hash, .string (some a.hash)⟩,
  ⟨"views", braces 2 ((viewEntries a.views).map fun e => member 4 e.name e.text),
    .object ((viewEntries a.views).map fun e => (some e.name, e.value))⟩]

/-- A document is its entries between braces. -/
theorem toList_document (a : Artifact) :
    a.document.toList = braces 0 (a.entries.map fun e => member 2 e.name e.text) := by
  rw [document, String.toList_ofList]
  simp only [entries, viewEntries, List.map_map, List.map_cons, List.map_nil]
  rfl

/-- The document is read as an object with the three members. -/
theorem parse_toList_document (a : Artifact) :
    Json.parse a.document.toList =
      some (.object (a.entries.map fun e => (some e.name, e.value))) := by
  have hviews : ∀ e ∈ viewEntries a.views, Reads e.text e.value 1 := by
    intro e he
    obtain ⟨⟨name, text⟩, -, rfl⟩ := List.mem_map.1 he
    exact reads_quote text
  have hentries : ∀ e ∈ a.entries,
      Reads e.text e.value (1 + (viewEntries a.views).length + 1) := by
    intro e he
    rcases List.mem_cons.1 he with rfl | he
    · exact (reads_quote a.pair).mono (by omega)
    rcases List.mem_cons.1 he with rfl | he
    · exact (reads_quote a.hash).mono (by omega)
    · obtain rfl := List.mem_singleton.1 he
      exact reads_braces 4 2 hviews
  -- the reader goes as deep as the document is long, and every member takes a character of it
  have hlength : (viewEntries a.views).length + 3 ≤ a.document.toList.length := by
    have hinner := length_le_braces 2 ((viewEntries a.views).map fun e => member 4 e.name e.text)
    rw [List.length_map] at hinner
    simp only [toList_document, entries, List.map_cons, List.map_nil]
    generalize braces 2 _ = inner at hinner ⊢
    simp only [braces, List.intercalate_cons_cons, List.intercalate_singleton, List.length_cons,
      List.length_append, member]
    omega
  have hread := reads_braces 2 0 hentries (2 * a.document.toList.length + 1) []
    (by change _ + 3 + 1 ≤ _; omega)
  rw [← toList_document, List.append_nil] at hread
  rw [Json.parse, hread]
  rfl

/-- The document of an artifact is read back as the artifact. -/
theorem parse_document (a : Artifact) : parse a.document = .ok a := by
  have hviews : readViews (.object ((viewEntries a.views).map fun e => (some e.name, e.value))) =
      .ok a.views := by
    have hall : ((viewEntries a.views).map fun e => (some e.name, e.value)).mapM readView =
        .ok a.views.entries := by
      rw [mapM_eq_ok_iff, viewEntries, List.map_map, List.forall₂_map_left_iff, List.forall₂_same]
      exact fun _ _ => rfl
    rw [readViews, hall]
    exact congrArg Except.ok (OrderedMap.ofList_entries a.views)
  rw [parse, parse_toList_document]
  have hjson : ofJson (.object (a.entries.map fun e => (some e.name, e.value))) = .ok a := by
    change (do return (⟨a.pair, a.hash, ← readViews _⟩ : Artifact)) = _
    rw [hviews]
    rfl
  simp only [hjson]

end Artifact

end QueryViews
