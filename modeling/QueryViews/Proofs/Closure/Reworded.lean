import QueryViews.Proofs.Closure.Faithful
import QueryViews.Proofs.Text.Tokens

/-!
# Rewording a view

A user's view may be reworded: the text for a whole extent, or for one type in it, is replaced
(`Schema.Reworded`). The closure encoding takes such texts with their blanks collapsed, so two
wordings have the same bytes exactly if they are alike then (`Schema.Reworded.encode_eq_iff`).

Collapsed text has the tokens of the text up to the blanks inside literals. So a change of tokens
shows in the bytes unless it is one of blanks inside a literal; such a change does not, though it
is another literal that rows are compared with (`Ledger.literals_lost`).
-/

namespace QueryViews

open Encoding

/-! ## Two wordings -/

/-- Two mappings of an extent that are alike but for one text, which may be missing for the extent
as a whole. -/
inductive ExtentMapping.Reworded : ExtentMapping → ExtentMapping → Option String → Option String →
    Prop
  | whole (m : ExtentMapping) (text text' : Option String) :
    Reworded { m with queryView := text } { m with queryView := text' } text text'
  | typed (m : ExtentMapping) (before after : List TypeView) (type : ModelId)
    (includeSubtypes : Bool) (text text' : String) :
    Reworded { m with typeViews := before ++ ⟨type, includeSubtypes, text⟩ :: after }
      { m with typeViews := before ++ ⟨type, includeSubtypes, text'⟩ :: after } text text'

/-- Two schemas that are alike but for one text in the mapping of a container. -/
inductive Schema.Reworded : Schema → ContainerId → Schema → Option String → Option String → Prop
  | mk {c : Conceptual} {store : Store} {mapping mapping' : Mapping} {id : ContainerId}
    (m : ContainerMapping)
    (before after : List ExtentMapping) {e e' : ExtentMapping} {text text' : Option String}
    (hm : mapping.container? id = some { m with extents := before ++ e :: after })
    (hm' : mapping'.container? id = some { m with extents := before ++ e' :: after })
    (h : e.Reworded e' text text') :
    Reworded ⟨c, store, mapping⟩ id ⟨c, store, mapping'⟩ text text'

namespace Content

/-- Two contents of an extent that are alike but for one text. -/
inductive ExtentMapping.Reworded : ExtentMapping → ExtentMapping → Option String → Option String →
    Prop
  | whole (m : ExtentMapping) (text text' : Option String) :
    Reworded { m with queryView := text } { m with queryView := text' } text text'
  | typed (m : ExtentMapping) (before after : List TypeView) (type : String)
    (includeSubtypes : Bool) (text text' : String) :
    Reworded { m with typeViews := before ++ ⟨type, includeSubtypes, text⟩ :: after }
      { m with typeViews := before ++ ⟨type, includeSubtypes, text'⟩ :: after } text text'

end Content

/-- Two contents that are alike but for one text. -/
inductive Content.Reworded : Content → Content → Option String → Option String → Prop
  | mk (k : Content) (before after : List Content.ExtentMapping) {m m' : Content.ExtentMapping}
    {text text' : Option String} (h : m.Reworded m' text text') :
    Reworded { k with extents := before ++ m :: after } { k with extents := before ++ m' :: after }
      text text'

/-! ## Contents of two wordings -/

/-- A traversal of a list around an element, part by part. -/
theorem mapM_append_cons_eq_ok_iff {α β ε : Type} {f : α → Except ε β} {before after : List α}
    {a : α} {r : List β} : (before ++ a :: after).mapM f = .ok r ↔ ∃ before' b after',
      before.mapM f = .ok before' ∧ f a = .ok b ∧ after.mapM f = .ok after' ∧
        r = before' ++ b :: after' := by
  rw [List.mapM_append, List.mapM_cons]
  simp only [bind_eq_ok_iff]
  constructor
  · rintro ⟨before', hbefore, _, ⟨b, hb, after', hafter, hcons⟩, hr⟩
    cases hcons
    cases hr
    exact ⟨before', b, after', hbefore, hb, hafter, rfl⟩
  · rintro ⟨before', b, after', hbefore, hb, hafter, rfl⟩
    exact ⟨before', hbefore, _, ⟨b, hb, after', hafter, rfl⟩, rfl⟩

namespace Schema

variable {c : Conceptual} {store : Store} {mapping mapping' : Mapping}

mutual

/-- The content of a property is told without the mapping that it is part of. -/
theorem propertyContent_eq : ∀ p : PropertyMapping,
    propertyContent ⟨c, store, mapping⟩ p = propertyContent ⟨c, store, mapping'⟩ p
  | .scalar _ => rfl
  | .embedded field properties => by
    rw [propertyContent, propertyContent, propertyContents_eq properties]
    rfl
  | .ends _ _ => rfl

/-- What is said of properties inside others does not depend on the mapping either. -/
theorem propertyContents_eq : ∀ ps : List PropertyMapping,
    propertyContents ⟨c, store, mapping⟩ ps = propertyContents ⟨c, store, mapping'⟩ ps
  | [] => rfl
  | p :: rest => by
    rw [propertyContents, propertyContents, propertyContent_eq p, propertyContents_eq rest]

end

/-- What is said about an extent does not depend on the rest of the mapping. -/
theorem extentContent_eq (m : ExtentMapping) :
    extentContent ⟨c, store, mapping⟩ m = extentContent ⟨c, store, mapping'⟩ m := by
  have hfragment : fragmentContent ⟨c, store, mapping⟩ = fragmentContent ⟨c, store, mapping'⟩ := by
    funext f
    rw [fragmentContent, fragmentContent, propertyContents_eq]
    rfl
  have htype :
      typeMappingContent ⟨c, store, mapping⟩ = typeMappingContent ⟨c, store, mapping'⟩ := by
    funext m
    rw [typeMappingContent, typeMappingContent, hfragment]
    rfl
  rw [extentContent, extentContent, htype]
  rfl

/-- What is said of a pair does not depend on the other pairs. -/
theorem pairContent_eq (m : ContainerMapping) :
    pairContent ⟨c, store, mapping⟩ m = pairContent ⟨c, store, mapping'⟩ m := by
  have hextent : extentContent ⟨c, store, mapping⟩ = extentContent ⟨c, store, mapping'⟩ :=
    funext extentContent_eq
  rw [pairContent, pairContent, hextent]
  rfl

/-- The content of an extent tells its texts with their blanks collapsed. -/
theorem reworded_extentContent {s : Schema} {m m' : ExtentMapping} {text text' : Option String}
    {k k' : Content.ExtentMapping} (h : m.Reworded m' text text')
    (hk : s.extentContent m = .ok k) (hk' : s.extentContent m' = .ok k') :
    k.Reworded k' (text.map Blank.collapse) (text'.map Blank.collapse) := by
  simp only [extentContent, bind_eq_ok_iff] at hk hk'
  obtain ⟨name, hname, views, hviews, types, htypes, functions, hfunctions, hr⟩ := hk
  obtain ⟨name', hname', views', hviews', types', htypes', functions', hfunctions', hr'⟩ := hk'
  cases hr
  cases hr'
  cases h with
  | whole m text text' =>
    cases hname.symm.trans hname'
    cases hviews.symm.trans hviews'
    cases htypes.symm.trans htypes'
    cases hfunctions.symm.trans hfunctions'
    exact .whole ⟨name, none, views, types, functions⟩ _ _
  | typed m before after type includeSubtypes text text' =>
    cases hname.symm.trans hname'
    cases htypes.symm.trans htypes'
    cases hfunctions.symm.trans hfunctions'
    -- the views before and after the one that is reworded are told alike
    obtain ⟨first, v, last, hfirst, hv, hlast, rfl⟩ := mapM_append_cons_eq_ok_iff.1 hviews
    obtain ⟨first', v', last', hfirst', hv', hlast', rfl⟩ := mapM_append_cons_eq_ok_iff.1 hviews'
    cases hfirst.symm.trans hfirst'
    cases hlast.symm.trans hlast'
    obtain ⟨n, hn, hr⟩ := bind_eq_ok_iff.1 hv
    obtain ⟨n', hn', hr'⟩ := bind_eq_ok_iff.1 hv'
    cases hn.symm.trans hn'
    cases hr
    cases hr'
    exact .typed ⟨name, m.queryView.map Blank.collapse, [], types, functions⟩ first last n
      includeSubtypes _ _

/-- If the view of one extent is reworded, so is the content of the pair, at one place. -/
theorem reworded_pairContent {s : Schema} {m : ContainerMapping} {before after : List ExtentMapping}
    {e e' : ExtentMapping} {text text' : Option String} {k k' : Content}
    (h : e.Reworded e' text text')
    (hk : s.pairContent { m with extents := before ++ e :: after } = .ok k)
    (hk' : s.pairContent { m with extents := before ++ e' :: after } = .ok k') :
    k.Reworded k' (text.map Blank.collapse) (text'.map Blank.collapse) := by
  simp only [pairContent, bind_eq_ok_iff] at hk hk'
  obtain ⟨owner, ho, sto, hs, sets, he, related, hr, closure, hcl, types, ht, associations, ha,
    tables, htb, extents, hall, heq⟩ := hk
  obtain ⟨owner', ho', sto', hs', sets', he', related', hr', closure', hcl', types', ht',
    associations', ha', tables', htb', extents', hall', heq'⟩ := hk'
  cases ho.symm.trans ho'
  cases hs.symm.trans hs'
  cases he.symm.trans he'
  cases hr.symm.trans hr'
  cases hcl.symm.trans hcl'
  cases ht.symm.trans ht'
  cases ha.symm.trans ha'
  cases htb.symm.trans htb'
  obtain ⟨first, x, last, hfirst, hx, hlast, rfl⟩ := mapM_append_cons_eq_ok_iff.1 hall
  obtain ⟨first', x', last', hfirst', hx', hlast', rfl⟩ := mapM_append_cons_eq_ok_iff.1 hall'
  cases hfirst.symm.trans hfirst'
  cases hlast.symm.trans hlast'
  cases heq
  cases heq'
  exact .mk ⟨owner.name, sto.name, sets, related, types, associations, _, []⟩ first last
    (reworded_extentContent h hx hx')

/-- Two wordings of a schema have contents that are alike but for the text. -/
theorem Reworded.content {s s' : Schema} {id : ContainerId} {text text' : Option String}
    (h : s.Reworded id s' text text') {k k' : Content} (hk : s.content id = .ok (some k))
    (hk' : s'.content id = .ok (some k')) :
    k.Reworded k' (text.map Blank.collapse) (text'.map Blank.collapse) := by
  obtain ⟨m, before, after, hm, hm', h⟩ := h
  obtain ⟨pair, hpair, hk⟩ := content_eq_ok_some_iff.1 hk
  obtain ⟨pair', hpair', hk'⟩ := content_eq_ok_some_iff.1 hk'
  cases hm.symm.trans hpair
  cases hm'.symm.trans hpair'
  exact reworded_pairContent h hk (pairContent_eq _ ▸ hk')

end Schema

/-! ## Bytes of two wordings -/

namespace Encoding

theorem string_injective {t t' : String} (h : string t = string t') : t = t' :=
  eq_of_toUTF8_toList_eq (List.append_inj h rfl).2

/-- Of equally many parts the count need not be short. -/
theorem perm_of_sorted_eq {parts parts' : List Bytes} (hlen : parts.length = parts'.length)
    (hp : ∀ part ∈ parts, Short part.length) (hp' : ∀ part ∈ parts', Short part.length)
    (h : sorted parts = sorted parts') : parts.Perm parts' := by
  have hsorted : (parts.mergeSort fun a b => decide (a ≤ b)) =
      parts'.mergeSort fun a b => decide (a ≤ b) := by
    rw [sorted, sorted, sequence, sequence, List.length_mergeSort, List.length_mergeSort, hlen] at h
    have h := congrArg (· ++ []) (List.append_cancel_left h)
    rw [← List.forall₂_eq_eq_eq]
    exact (flatMap_legible sized_legible (by simpa using hlen)
      (fun part hpart => hp part (List.mem_mergeSort.1 hpart))
      (fun part hpart => hp' part (List.mem_mergeSort.1 hpart)) h).1
  calc
    parts.Perm (parts.mergeSort fun a b => decide (a ≤ b)) := (List.mergeSort_perm _ _).symm
    _ = parts'.mergeSort fun a b => decide (a ≤ b) := hsorted
    List.Perm _ parts' := List.mergeSort_perm _ _

/-- Where all but one element of two unordered collections are alike, equal bytes show that the
two others are written alike. -/
theorem encode_eq_of_unordered_eq {α : Type} {encode : α → Bytes} {before after : List α} {a b : α}
    (ha : ∀ x ∈ before ++ a :: after, Short (encode x).length)
    (hb : ∀ x ∈ before ++ b :: after, Short (encode x).length)
    (h : unordered encode (before ++ a :: after) = unordered encode (before ++ b :: after)) :
    encode a = encode b := by
  have hperm := perm_of_sorted_eq (by simp) (List.forall_mem_map.2 ha) (List.forall_mem_map.2 hb) h
  rw [List.map_append, List.map_append, List.perm_append_left_iff, List.map_cons, List.map_cons,
    ← Multiset.coe_eq_coe, ← Multiset.cons_coe, ← Multiset.cons_coe] at hperm
  exact (Multiset.cons_inj_left _).1 hperm

end Encoding

namespace Content

/-- The bytes tell whether there is a view, and which one it is. -/
theorem encodeQueryView_injective {view view' : Option String}
    (h : encodeQueryView view = encodeQueryView view') : view = view' := by
  cases view <;> cases view'
  · rfl
  · cases h
  · cases h
  · rw [string_injective (List.cons.inj h).2]

/-- Of mappings that differ in the view only, the bytes tell the view. -/
theorem ExtentMapping.Reworded.eq_of_encode_eq {m m' : ExtentMapping} {text text' : Option String}
    (h : m.Reworded m' text text') (hm : Short m.encode.length) (hm' : Short m'.encode.length)
    (heq : m.encode = m'.encode) : text = text' := by
  have hfits := ExtentMapping.encode_measured hm
  have hfits' := ExtentMapping.encode_measured hm'
  cases h with
  | whole m text text' =>
    simp only [ExtentMapping.encode, List.append_assoc] at heq
    have heq := List.append_cancel_left heq
    exact encodeQueryView_injective (List.append_cancel_right heq)
  | typed m before after type includeSubtypes text text' =>
    have heq := List.append_cancel_right (List.append_cancel_right heq)
    have heq := encode_eq_of_unordered_eq hfits.typeViews.encoded hfits'.typeViews.encoded
      (List.append_cancel_left heq)
    exact congrArg some (string_injective (List.append_cancel_left heq))

end Content

/-- Of contents that differ in one view only, the bytes are the same exactly if the view is. -/
theorem Content.Reworded.encode_eq_iff {k k' : Content} {text text' : Option String}
    (h : k.Reworded k' text text') (hk : ∀ m ∈ k.extents, Short m.encode.length)
    (hk' : ∀ m ∈ k'.extents, Short m.encode.length) : k.encode = k'.encode ↔ text = text' := by
  obtain ⟨k, before, after, h⟩ := h
  constructor
  · intro heq
    have heq := (List.cons.inj (List.append_cancel_left heq)).2
    exact h.eq_of_encode_eq (hk _ (by simp)) (hk' _ (by simp))
      (encode_eq_of_unordered_eq hk hk' heq)
  · rintro rfl
    cases h <;> rfl

/-- **Blanks are ignored outside literals.** Two wordings of a view have the same bytes exactly if
they are alike with their blanks collapsed. Then they have the same tokens up to the blanks inside
literals. So wordings with other tokens have other bytes, where the literals hold no blanks but
single spaces. -/
theorem Schema.Reworded.tokens_told {s s' : Schema} {id : ContainerId} {text text' : Option String}
    (h : s.Reworded id s' text text') {k k' : Content} (hk : s.content id = .ok (some k))
    (hk' : s'.content id = .ok (some k')) (hshort : ∀ m ∈ k.extents, Short m.encode.length)
    (hshort' : ∀ m ∈ k'.extents, Short m.encode.length) :
    (k.encode = k'.encode ↔ text.map Blank.collapse = text'.map Blank.collapse) ∧
    (k.encode = k'.encode →
      (text.map fun t => (Token.ofText t).map (List.map Token.squeeze)) =
        text'.map fun t => (Token.ofText t).map (List.map Token.squeeze)) ∧
    ((∀ t ∈ text, Token.Spaced t) → (∀ t ∈ text', Token.Spaced t) →
      text.map Token.ofText ≠ text'.map Token.ofText → k.encode ≠ k'.encode) := by
  have hiff := (h.content hk hk').encode_eq_iff hshort hshort'
  refine ⟨hiff, fun heq => ?_, fun hspaced hspaced' hne heq => hne ?_⟩
  · have hcollapse := congrArg (Option.map Token.ofText) (hiff.1 heq)
    simpa only [Option.map_map, Function.comp_def, Token.ofText_collapse] using hcollapse
  · have hcollapse := congrArg (Option.map Token.ofText) (hiff.1 heq)
    rw [Option.map_map, Option.map_map] at hcollapse
    calc
      text.map Token.ofText = text.map (Token.ofText ∘ Blank.collapse) :=
        Option.map_congr fun t ht => (hspaced t ht).ofText_collapse.symm
      _ = text'.map (Token.ofText ∘ Blank.collapse) := hcollapse
      _ = text'.map Token.ofText := Option.map_congr fun t ht => (hspaced' t ht).ofText_collapse

/-! ## A ledger -/

namespace Ledger

/-- A book of entries with a note, and a view of the entries. -/
def declarations (text : String) : List Declaration := [
  .entity "Entry", .field .key ⟨0⟩ "Id" .int32, .field .plain ⟨0⟩ "Note" .text,
  .container "Book", .entitySet ⟨0⟩ "Entries" ⟨0⟩,
  .storeContainer "Db", .table ⟨0⟩ "Entries", .mapContainers ⟨0⟩ ⟨0⟩,
  .mapExtent (.entitySet ⟨⟨0⟩, 0⟩) (.queryView (some text))]

/-- A book of entries with notes. -/
def conceptual : Conceptual where
  models := [
    ⟨"Entry", [⟨"Id", .scalar .int32, false, false⟩, ⟨"Note", .scalar .text, false, false⟩],
      .entity ⟨none, false, [⟨⟨0⟩, 0⟩]⟩⟩]
  associations := []
  containers := [⟨"Book", [⟨"Entries", ⟨0⟩⟩], []⟩]

/-- The mapping of the entries, by a view of the user. -/
def extent (text : Option String) : ExtentMapping := ⟨.entitySet ⟨⟨0⟩, 0⟩, text, [], [], []⟩

/-- The book with a view of its entries. -/
def schema (text : String) : Schema where
  conceptual := conceptual
  store := ⟨[⟨"Db", [⟨0⟩]⟩], [⟨⟨0⟩, "Entries", [], []⟩]⟩
  mapping := ⟨[⟨⟨0⟩, ⟨0⟩, [extent (some text)]⟩]⟩

theorem built (text : String) : (schema text).Built := ⟨declarations text, _, rfl⟩

theorem reworded (text text' : String) :
    (schema text).Reworded ⟨0⟩ (schema text') (some text) (some text') :=
  .mk ⟨⟨0⟩, ⟨0⟩, []⟩ [] [] rfl rfl (.whole (extent none) (some text) (some text'))

/-- What the book says: the view with its blanks collapsed. -/
def told (text : String) : Content where
  conceptual := "Book"
  store := "Db"
  entitySets := [⟨"Entries", "Entry"⟩]
  associationSets := []
  types := [⟨"Entry", .entity none false [⟨"Entry", "Id"⟩],
    [⟨"Id", false, false, .scalar .int32⟩, ⟨"Note", false, false, .scalar .text⟩]⟩]
  associations := []
  tables := [⟨"Entries", []⟩]
  extents := [⟨"Book.Entries", some (Blank.collapse text), [], [], []⟩]

theorem closure_eq : conceptual.closure ⟨"Book", [⟨"Entries", ⟨0⟩⟩], []⟩ = .ok [.model ⟨0⟩] := by
  cbv

theorem content_eq (text : String) : (schema text).content ⟨0⟩ = .ok (some (told text)) :=
  Schema.content_eq_ok_some_iff.2 ⟨_, rfl, Schema.pairContent_eq_ok_iff.2 ⟨_, _, _, _, rfl, rfl,
    closure_eq, rfl, rfl, rfl, rfl, rfl, rfl, rfl, rfl, rfl⟩⟩

/-- The entries whose note has one space in it. -/
def single : String := "SELECT VALUE T FROM Book.Entries AS T WHERE T.Note = 'a b'"

/-- The entries whose note has two. -/
def double : String := "SELECT VALUE T FROM Book.Entries AS T WHERE T.Note = 'a  b'"

/-- The entries whose note has none. -/
def solid : String := "SELECT VALUE T FROM Book.Entries AS T WHERE T.Note = 'ab'"

/-- The tokens of a query for the entries with a certain note. -/
def tokens (note : String) : List Token :=
  ["SELECT", "VALUE", "T", "FROM", "Book.Entries", "AS", "T", "WHERE", "T.Note", "="].map
    (fun word => .word word.toList) ++ [.literal note.toList]

/-- Notes that differ make tokens that differ. -/
theorem tokens_injective {note note' : String} (h : tokens note = tokens note') : note = note' := by
  have h := (List.cons.inj (List.append_cancel_left h)).1
  exact String.toList_inj.1 (Token.literal.inj h)

theorem ofText_single : Token.ofText single = some (tokens "a b") := by
  cbv

theorem ofText_double : Token.ofText double = some (tokens "a  b") := by
  cbv

theorem ofText_solid : Token.ofText solid = some (tokens "ab") := by
  cbv

/-- The two blanks in the literal are collapsed like any others. -/
theorem collapse_double : Blank.collapse double = Blank.collapse single := by
  cbv

theorem spaced_single : Token.Spaced single := by
  intro l hl
  cases ofText_single.symm.trans hl
  cbv

theorem spaced_solid : Token.Spaced solid := by
  intro l hl
  cases ofText_solid.symm.trans hl
  cbv

theorem short_single : ∀ m ∈ (told single).extents, Short m.encode.length := by
  simp only [told, List.forall_mem_singleton, Content.ExtentMapping.encode,
    Content.encodeQueryView, List.length_append, List.length_cons, length_string, length_unordered]
  decide

theorem short_solid : ∀ m ∈ (told solid).extents, Short m.encode.length := by
  simp only [told, List.forall_mem_singleton, Content.ExtentMapping.encode,
    Content.encodeQueryView, List.length_append, List.length_cons, length_string, length_unordered]
  decide

end Ledger

/-- Another space in the literal makes another view, but neither other bytes nor another hash. -/
theorem Ledger.literals_lost : (schema double).Built ∧ (schema single).Built ∧
    (schema double).Reworded ⟨0⟩ (schema single) (some double) (some single) ∧
    Token.ofText double = some (tokens "a  b") ∧ Token.ofText single = some (tokens "a b") ∧
    tokens "a  b" ≠ tokens "a b" ∧
    (schema double).content ⟨0⟩ = .ok (some (told double)) ∧
    (schema single).content ⟨0⟩ = .ok (some (told single)) ∧
    (told double).encode = (told single).encode ∧
    ClosureHash.compute (schema double) ⟨0⟩ = ClosureHash.compute (schema single) ⟨0⟩ := by
  have htold : told double = told single := by rw [told, told, collapse_double]
  refine ⟨built double, built single, reworded double single, ofText_double, ofText_single,
    fun h => absurd (tokens_injective h) (by decide), content_eq double, content_eq single,
    congrArg Content.encode htold, ?_⟩
  rw [ClosureHash.compute, ClosureHash.compute, content_eq, content_eq, htold]

/-- Without the space it is another literal, and the bytes are others. -/
theorem Ledger.literals_kept : (schema single).Reworded ⟨0⟩ (schema solid) (some single)
      (some solid) ∧
    (schema single).content ⟨0⟩ = .ok (some (told single)) ∧
    (schema solid).content ⟨0⟩ = .ok (some (told solid)) ∧
    (∀ m ∈ (told single).extents, Short m.encode.length) ∧
    (∀ m ∈ (told solid).extents, Short m.encode.length) ∧
    Token.Spaced single ∧ Token.Spaced solid ∧
    Token.ofText single ≠ Token.ofText solid ∧ (told single).encode ≠ (told solid).encode := by
  obtain ⟨-, -, hne⟩ := (reworded single solid).tokens_told (content_eq single) (content_eq solid)
    short_single short_solid
  have htokens : Token.ofText single ≠ Token.ofText solid := by
    rw [ofText_single, ofText_solid]
    exact fun h => absurd (tokens_injective (Option.some.inj h)) (by decide)
  refine ⟨reworded single solid, content_eq single, content_eq solid, short_single, short_solid,
    spaced_single, spaced_solid, htokens, hne ?_ ?_ fun h => htokens (Option.some.inj h)⟩
  · rintro t ⟨⟩
    exact spaced_single
  · rintro t ⟨⟩
    exact spaced_solid

end QueryViews
