import CommonTrace.Event.Attributes
import CommonTrace.Proofs.Decoding.Conformance
import CommonTrace.Proofs.Text.Replacing
import Mathlib.Data.List.TakeWhile

/-!
# Texts in arrays

An array or sequence of encoded bytes is shown as one text: what its bytes up to the first zero byte
are read as, without the quotes at either end. So texts that neither begin nor end with a quote are
shown as they are, and two of them alike only if they are the same. Other texts lose the quotes that
they begin and end with.
-/
namespace CommonTrace

namespace Text

/-- A text that neither begins nor ends with a quote. -/
structure Bare (chars : List Char) : Prop where
  head : chars.head? ≠ some '"'
  last : chars.getLast? ≠ some '"'

/-- A text with any number of quotes at either end of another one, which has none there. -/
def Quoting (chars inner : List Char) : Prop :=
  Bare inner ∧ ∃ before after,
    chars = List.replicate before '"' ++ inner ++ List.replicate after '"'

/-- A text without the quotes at either end. -/
def dropQuotes (chars : List Char) : List Char :=
  ((chars.dropWhile (· == '"')).reverse.dropWhile (· == '"')).reverse

variable {chars inner : List Char}

theorem dropWhile_quotes (n : Nat) (h : chars.head? ≠ some '"') :
    (List.replicate n '"' ++ chars).dropWhile (· == '"') = chars := by
  rw [List.dropWhile_append_of_pos (by simp)]
  cases chars with
  | nil => rfl
  | cons c rest =>
    rw [List.dropWhile_cons_of_neg]
    simpa using h

theorem exists_quotes_before (chars : List Char) :
    ∃ n, chars = List.replicate n '"' ++ chars.dropWhile (· == '"') ∧
      (chars.dropWhile (· == '"')).head? ≠ some '"' := by
  refine ⟨(chars.takeWhile (· == '"')).length, ?_, fun hhead => ?_⟩
  · rw [← List.eq_replicate_length.2 fun c hc => by simpa using List.mem_takeWhile_imp hc,
      List.takeWhile_append_dropWhile]
  · have hnot := List.head?_dropWhile_not (· == '"') chars
    rw [hhead] at hnot
    simp at hnot

theorem dropQuotes_of_quoting (h : Quoting chars inner) : dropQuotes chars = inner := by
  obtain ⟨⟨hhead, hlast⟩, before, after, rfl⟩ := h
  unfold dropQuotes
  by_cases hinner : inner = []
  · have hall : List.replicate before '"' ++ inner ++ List.replicate after '"' =
        List.replicate (before + after) '"' ++ [] := by
      rw [hinner, List.append_nil, List.append_nil, List.replicate_append_replicate]
    rw [hall, dropWhile_quotes _ (by simp), hinner]
    rfl
  · have hhead' : (inner ++ List.replicate after '"').head? ≠ some '"' := by
      rwa [List.head?_append_of_ne_nil _ hinner]
    rw [List.append_assoc, dropWhile_quotes _ hhead', List.reverse_append, List.reverse_replicate,
      dropWhile_quotes _ (by rwa [List.head?_reverse]), List.reverse_reverse]

theorem quoting_dropQuotes (chars : List Char) : Quoting chars (dropQuotes chars) := by
  unfold dropQuotes
  obtain ⟨before, hbefore, hhead⟩ := exists_quotes_before chars
  generalize chars.dropWhile (· == '"') = rest at hbefore hhead ⊢
  obtain ⟨after, hafter, hlast⟩ := exists_quotes_before rest.reverse
  generalize rest.reverse.dropWhile (· == '"') = inner at hafter hlast ⊢
  have hrest : rest = inner.reverse ++ List.replicate after '"' := by
    rw [← List.reverse_reverse rest, hafter, List.reverse_append, List.reverse_replicate]
  refine ⟨⟨fun hinner => ?_, by rwa [List.getLast?_reverse]⟩, before, after, ?_⟩
  · have hne : inner.reverse ≠ [] := by
      intro hnil
      rw [hnil] at hinner
      cases hinner
    rw [hrest, List.head?_append_of_ne_nil _ hne] at hhead
    exact hhead hinner
  · rw [List.append_assoc, ← hrest]
    exact hbefore

theorem quoting_self_iff : Quoting chars chars ↔ Bare chars :=
  ⟨And.left, fun h => ⟨h, 0, 0, by simp⟩⟩

/-- Only one text has no quotes left at either end. -/
theorem Quoting.unique {inner' : List Char} (h : Quoting chars inner) (h' : Quoting chars inner') :
    inner = inner' :=
  (dropQuotes_of_quoting h).symm.trans (dropQuotes_of_quoting h')

end Text

namespace Value

variable {v w : Value} {bytes : List UInt8} {elements : List Value}

/-- Whether a value is an array or sequence that is a text. -/
def isText : Value → Bool
  | array _ element _ _ _ => isTextElement element
  | sequence _ element _ _ _ => isTextElement element
  | _ => false

/-- A text in an array or sequence, with the bytes that its elements hold. -/
def HoldsText (v : Value) (bytes : List UInt8) : Prop :=
  v.isText ∧ ∃ elements, v.elements? = some elements ∧ elements.map byte? = bytes.map some

theorem quoting_unquotedText (elements : List Value) :
    Text.Quoting (bytesText elements).toList (unquotedText elements).toList := by
  rw [unquotedText, String.toList_ofList]
  exact Text.quoting_dropQuotes _

theorem leaves_of_isText (h : v.isText) (helements : v.elements? = some elements) :
    v.leaves = [([], .string (unquotedText elements))] := by
  cases v with
  | array length element offset node =>
    cases helements
    rw [leaves]
    exact if_pos h
  | sequence length element offset node =>
    cases helements
    rw [leaves]
    exact if_pos h
  | _ => cases h

/-- What the bytes of an array are read as. -/
theorem bytesText_of_bytes (h : elements.map byte? = bytes.map some) :
    bytesText elements = Text.lossy (bytes.takeWhile (· != 0)) := by
  have hbytes : elements.filterMap byte? = bytes := by
    calc elements.filterMap byte?
      _ = (elements.map byte?).filterMap id := by rw [List.filterMap_map, Function.id_comp]
      _ = bytes.filterMap (id ∘ some) := by rw [h, List.filterMap_map]
      _ = bytes := List.filterMap_some
  rw [bytesText, hbytes]

theorem map_byte?_filterMap (h : ∀ element ∈ elements, element.byte?.isSome) :
    elements.map byte? = (elements.filterMap byte?).map some := by
  induction elements with
  | nil => rfl
  | cons element rest ih =>
    obtain ⟨byte, hbyte⟩ := Option.isSome_iff_exists.1 (h element List.mem_cons_self)
    have hrest := ih fun e he => h e (List.mem_cons_of_mem _ he)
    rw [List.map_cons, List.filterMap_cons_some hbyte, List.map_cons, hbyte, hrest]

theorem isSome_byte?_of_declaration {type : IntegerType} (h : v.declaration = .integer type) :
    v.byte?.isSome := by
  cases v with
  | integer => rfl
  | _ => cases h

/-- The elements of a text that is decoded hold bytes. -/
theorem exists_holdsText (d : Decoded) (h : d.value.isText) :
    ∃ bytes, d.value.HoldsText bytes := by
  obtain ⟨members, -, -, hconforms⟩ := d.exists_conforms
  have hbytes {element : Declaration} (helement : isTextElement element)
      (htypes : ∀ m ∈ members, m.2.type = element) :
      ∀ e ∈ members.map (·.2.value), e.byte?.isSome := by
    intro e he
    obtain ⟨m, hm, rfl⟩ := List.mem_map.1 he
    have htype := m.2.declaration_eq.trans (htypes m hm)
    cases element with
    | integer type => exact isSome_byte?_of_declaration htype
    | _ => cases helement
  generalize d.value = v at h hconforms
  cases v with
  | array length element offset node elements =>
    obtain ⟨rfl, -, htypes⟩ := hconforms
    exact ⟨_, h, _, rfl, map_byte?_filterMap (hbytes h htypes)⟩
  | sequence length element offset node elements =>
    obtain ⟨rfl, -, htypes⟩ := hconforms
    exact ⟨_, h, _, rfl, map_byte?_filterMap (hbytes h htypes)⟩
  | _ => cases h

/-- What a text in an array is shown as. -/
theorem exists_shown (h : v.HoldsText bytes) :
    ∃ text shown : String, Text.ReadAs (bytes.takeWhile (· != 0)) text.toList ∧
      v.leaves = [([], .string shown)] ∧ Text.Quoting text.toList shown.toList := by
  obtain ⟨htext, elements, helements, hbytes⟩ := h
  refine ⟨bytesText elements, unquotedText elements, ?_, leaves_of_isText htext helements,
    quoting_unquotedText elements⟩
  exact Text.lossy_eq_iff.1 (bytesText_of_bytes hbytes).symm

/-- A text in an array is shown as a single string: what the bytes up to the first zero byte are
read as, without the quotes at either end. It is shown as it is if and only if it neither begins
nor ends with a quote. Two of them are shown alike if and only if they differ in those quotes only;
so if they have none there, they are shown alike only if they are the same. -/
theorem leaves_of_holdsText {v w : Value} {bytes bytes' : List UInt8} (hv : v.HoldsText bytes)
    (hw : w.HoldsText bytes') :
    ∃ text text' shown : String,
      Text.ReadAs (bytes.takeWhile (· != 0)) text.toList ∧
      Text.ReadAs (bytes'.takeWhile (· != 0)) text'.toList ∧
      v.leaves = [([], .string shown)] ∧ Text.Quoting text.toList shown.toList ∧
      (shown = text ↔ Text.Bare text.toList) ∧
      (v.leaves = w.leaves ↔
        ∃ inner, Text.Quoting text.toList inner ∧ Text.Quoting text'.toList inner) ∧
      (Text.Bare text.toList → Text.Bare text'.toList → (v.leaves = w.leaves ↔ text = text')) := by
  obtain ⟨text, shown, hread, hleaves, hquoting⟩ := exists_shown hv
  obtain ⟨text', shown', hread', hleaves', hquoting'⟩ := exists_shown hw
  have hself : shown = text ↔ Text.Bare text.toList := by
    rw [← Text.quoting_self_iff, ← String.toList_inj]
    exact ⟨fun h => h ▸ hquoting, hquoting.unique⟩
  have halike : v.leaves = w.leaves ↔
      ∃ inner, Text.Quoting text.toList inner ∧ Text.Quoting text'.toList inner := by
    have hshown : v.leaves = w.leaves ↔ shown.toList = shown'.toList := by
      rw [hleaves, hleaves', String.toList_inj]
      simp
    rw [hshown]
    constructor
    · intro h
      exact ⟨shown.toList, hquoting, h ▸ hquoting'⟩
    · rintro ⟨inner, h, h'⟩
      exact (hquoting.unique h).trans (hquoting'.unique h').symm
  refine ⟨text, text', shown, hread, hread', hleaves, hquoting, hself, halike, fun hb hb' => ?_⟩
  rw [halike, ← String.toList_inj]
  constructor
  · rintro ⟨inner, h, h'⟩
    exact ((Text.quoting_self_iff.2 hb).unique h).trans
      ((Text.quoting_self_iff.2 hb').unique h').symm
  · intro h
    refine ⟨text.toList, Text.quoting_self_iff.2 hb, ?_⟩
    rw [h]
    exact Text.quoting_self_iff.2 hb'

/-- The array of encoded bytes that is decoded from a buffer which it fills. -/
def chars? (bytes : Array UInt8) : Option Value :=
  let char : IntegerType := { IntegerType.byte with encoding := .utf8 }
  Declaration.decoded? ((Place.field (ScopeTree.root .eventFields) "comm").decode
    (.array bytes.size (.integer char)) ⟨.ofBytes ⟨bytes⟩, .empty⟩)

theorem holdsText_of_chars? (bytes : Array UInt8)
    (h : (chars? bytes).map (fun v => (v.isText, v.elements?.map (·.map byte?))) =
      some (true, some (bytes.toList.map some))) :
    ∃ v, chars? bytes = some v ∧ v.HoldsText bytes.toList := by
  obtain ⟨v, hv, hpair⟩ := Option.map_eq_some_iff.1 h
  obtain ⟨htext, helements⟩ := Prod.mk.inj hpair
  obtain ⟨elements, helements, hbytes⟩ := Option.map_eq_some_iff.1 helements
  exact ⟨v, hv, htext, elements, helements, hbytes⟩

/-- The names of two processes. -/
theorem leaves_of_holdsText_ls :
    ∃ v w text text' shown, chars? #[0x6C, 0x73, 0] = some v ∧ chars? #[0x73, 0x68] = some w ∧
      v.HoldsText [0x6C, 0x73, 0] ∧ w.HoldsText [0x73, 0x68] ∧
      Text.ReadAs ([0x6C, 0x73, 0].takeWhile (· != 0)) text.toList ∧
      Text.ReadAs ([0x73, 0x68].takeWhile (· != 0)) text'.toList ∧
      v.leaves = [([], .string shown)] ∧ Text.Quoting text.toList shown.toList ∧
      (shown = text ↔ Text.Bare text.toList) ∧
      (Text.Bare text.toList → Text.Bare text'.toList → (v.leaves = w.leaves ↔ text = text')) := by
  obtain ⟨v, hv, hholds⟩ := holdsText_of_chars? #[0x6C, 0x73, 0] (by decide +kernel)
  obtain ⟨w, hw, hholds'⟩ := holdsText_of_chars? #[0x73, 0x68] (by decide +kernel)
  obtain ⟨text, text', shown, hread, hread', hleaves, hquoting, hself, -, hbare⟩ :=
    leaves_of_holdsText hholds hholds'
  exact ⟨v, w, text, text', shown, hv, hw, hholds, hholds', hread, hread', hleaves, hquoting, hself,
    hbare⟩

/-- Two arrays with different texts, one of them in quotes, are shown alike. -/
theorem leaves_quoted :
    ∃ v w, chars? #[0x22, 0x61, 0x22] = some v ∧ chars? #[0x61] = some w ∧
      v.HoldsText [0x22, 0x61, 0x22] ∧ w.HoldsText [0x61] ∧
      Text.lossy [0x22, 0x61, 0x22] = "\"a\"" ∧ Text.lossy [0x61] = "a" ∧
      v.leaves = [([], .string "a")] ∧ w.leaves = [([], .string "a")] := by
  have hleaves : (chars? #[0x22, 0x61, 0x22]).map leaves = some [([], .string "a")] ∧
      (chars? #[0x61]).map leaves = some [([], .string "a")] := by
    decide +kernel
  obtain ⟨v, hv, hholds⟩ := holdsText_of_chars? #[0x22, 0x61, 0x22] (by decide +kernel)
  obtain ⟨w, hw, hholds'⟩ := holdsText_of_chars? #[0x61] (by decide +kernel)
  rw [hv, hw] at hleaves
  exact ⟨v, w, hv, hw, hholds, hholds', by decide +kernel, by decide +kernel,
    Option.some.inj hleaves.1, Option.some.inj hleaves.2⟩

end Value

end CommonTrace
