import CommonTrace.Proofs.Event.KeyStack
import CommonTrace.Proofs.Event.Sections

/-!
# Attributes of an event

The attributes of an event are collected in a map, in which one of two that are named alike would be
lost. None is: the names of a section are different, those of different sections are of different
kinds, and the event has one of each kind of its own.
-/
namespace CommonTrace

namespace EventKey

variable {key key' : EventKey} {kind : String → EventKey}

theorem order_eq_iff : order key key' = .eq ↔ key = key' := by
  rw [order, compareLex_eq_eq, compareOn, compareOn, Nat.compare_eq_eq,
    Std.LawfulEqCmp.compare_eq_iff_eq]
  constructor
  · rintro ⟨hrank, hpath⟩
    cases key <;> cases key' <;> simp_all [rank, path]
  · rintro rfl
    exact ⟨rfl, rfl⟩

instance : Std.TransCmp order := by
  unfold order
  infer_instance

instance : Std.LawfulEqCmp order where
  eq_of_compare := order_eq_iff.1

/-- The kinds of names that the sections of an event have. -/
def kinds : List (String → EventKey) :=
  [.header, .commonContext, .specificContext, .packetContext, .field]

/-- Names of different kinds are different. -/
theorem pairwise_kinds :
    kinds.Pairwise fun kind kind' => ∀ path path', kind path ≠ kind' path' := by
  simp [kinds]

theorem injective_of_mem_kinds (h : kind ∈ kinds) : Function.Injective kind := by
  intro path path' heq
  simp only [kinds, List.mem_cons, List.not_mem_nil, or_false] at h
  rcases h with rfl | rfl | rfl | rfl | rfl <;> cases heq <;> rfl

end EventKey

namespace Event

variable {e : Event} {v : Value} {key : EventKey} {a : AttributeValue} {kind : String → EventKey}
  {attributes : List (EventKey × AttributeValue)}

theorem pairwise_order (h : (attributes.map Prod.fst).Nodup) :
    attributes.Pairwise fun x y => ¬EventKey.order x.1 y.1 = .eq := by
  refine (List.pairwise_map.1 h).imp fun hne heq => hne ?_
  exact EventKey.order_eq_iff.1 heq

/-- The map of some attributes, no two of which are named alike, holds them all. -/
theorem getElem?_ofList (h : (attributes.map Prod.fst).Nodup) :
    (Std.TreeMap.ofList attributes EventKey.order)[key]? = some a ↔ (key, a) ∈ attributes := by
  have hfound {a : AttributeValue} (hmem : (key, a) ∈ attributes) :
      (Std.TreeMap.ofList attributes EventKey.order)[key]? = some a :=
    Std.TreeMap.getElem?_ofList_of_mem (EventKey.order_eq_iff.2 rfl) (pairwise_order h) hmem
  refine ⟨fun hget => ?_, hfound⟩
  by_cases hkey : key ∈ attributes.map Prod.fst
  · obtain ⟨⟨_, a'⟩, hmem, rfl⟩ := List.mem_map.1 hkey
    rw [hfound hmem] at hget
    exact Option.some.inj hget ▸ hmem
  · have hnone : (attributes.map Prod.fst).contains key = false := by simpa using hkey
    rw [Std.TreeMap.getElem?_ofList_of_contains_eq_false hnone] at hget
    cases hget

/-- The sections of an event that have been decoded: all but the fields of a record of lost
events. -/
def contents (e : Event) : List Value :=
  e.packetContext.toList ++
    match e.body with
    | .decoded _ header streamContext context fields =>
      header.toList ++ streamContext.toList ++ context.toList ++ fields.toList
    | .lost _ _ _ => []

/-- The sections of an event are of different kinds. -/
theorem sublist_kinds (e : Event) : (e.sections.map Prod.fst).Sublist EventKey.kinds := by
  have hsection (kind : String → EventKey) (found : Option Value) :
      ((found.toList.map fun v => (kind, v)).map Prod.fst).Sublist [kind] := by
    cases found <;> simp
  unfold sections
  split
  · simp only [List.map_append]
    exact ((((hsection _ _).append (hsection _ _)).append (hsection _ _)).append
      (hsection _ _)).append (hsection _ _)
  · simp only [List.map_append]
    refine ((hsection .packetContext _).append (hsection .field _)).trans ?_
    exact List.sublist_append_right [EventKey.header, .commonContext, .specificContext] _

/-- The sections of an event, each with the kind of its names: the four parts and the context of its
packet if the event has been decoded, and the context of the packet and the fields of the record if
events were lost. -/
inductive HasSection (e : Event) : (String → EventKey) → Value → Prop
  | header {eventClass : EventClass} {v : Value} {streamContext context fields : Option Value}
      (body : e.body = .decoded eventClass (some v) streamContext context fields) :
      e.HasSection .header v
  | commonContext {eventClass : EventClass} {v : Value} {header context fields : Option Value}
      (body : e.body = .decoded eventClass header (some v) context fields) :
      e.HasSection .commonContext v
  | specificContext {eventClass : EventClass} {v : Value}
      {header streamContext fields : Option Value}
      (body : e.body = .decoded eventClass header streamContext (some v) fields) :
      e.HasSection .specificContext v
  | packetContext {v : Value} (context : e.packetContext = some v) : e.HasSection .packetContext v
  | field {eventClass : EventClass} {v : Value} {header streamContext context : Option Value}
      (body : e.body = .decoded eventClass header streamContext context (some v)) :
      e.HasSection .field v
  | lost {order : ByteOrder} {count duration : Nat} (body : e.body = .lost order count duration) :
      e.HasSection .field (lostFields order count duration)

theorem mem_sections : (kind, v) ∈ e.sections ↔ e.HasSection kind v := by
  have hsection {kind kind' : String → EventKey} {found : Option Value} :
      (kind, v) ∈ (found.toList.map fun v => (kind', v)) ↔ kind = kind' ∧ found = some v := by
    cases found <;> simp [eq_comm]
  unfold sections
  cases hbody : e.body with
  | decoded eventClass header streamContext context fields =>
    simp only [List.mem_append, hsection]
    constructor
    · rintro ((((⟨rfl, rfl⟩ | ⟨rfl, rfl⟩) | ⟨rfl, rfl⟩) | ⟨rfl, h⟩) | ⟨rfl, rfl⟩)
      · exact .header hbody
      · exact .commonContext hbody
      · exact .specificContext hbody
      · exact .packetContext h
      · exact .field hbody
    · intro h
      cases h with
      | packetContext context => simp [context]
      | lost body => cases hbody.symm.trans body
      | header body | commonContext body | specificContext body | field body =>
        cases hbody.symm.trans body
        simp
  | lost order count duration =>
    simp only [List.mem_append, hsection]
    constructor
    · rintro (⟨rfl, h⟩ | ⟨rfl, ⟨⟩⟩)
      · exact .packetContext h
      · exact .lost hbody
    · intro h
      cases h with
      | packetContext context => simp [context]
      | lost body =>
        cases hbody.symm.trans body
        simp
      | header body | commonContext body | specificContext body | field body =>
        cases hbody.symm.trans body

theorem HasSection.mem_contents_or_lost (h : e.HasSection kind v) :
    v ∈ e.contents ∨ ∃ order count duration, v = lostFields order count duration := by
  cases h with
  | lost body => exact .inr ⟨_, _, _, rfl⟩
  | packetContext context => simp [contents, context]
  | header body | commonContext body | specificContext body | field body => simp [contents, body]

theorem distinct_lostFields (order : ByteOrder) (count duration : Nat) :
    (lostFields order count duration).Distinct := by
  apply Value.distinct_of_members
  · show ["Lost events", "duration"].Nodup
    decide
  · intro member hmember
    rcases List.mem_pair.1 hmember with rfl | rfl
    · exact Value.distinct_of_members_eq_nil rfl
    · exact Value.distinct_of_members_eq_nil rfl

theorem undotted_lostFields (order : ByteOrder) (count duration : Nat) :
    (lostFields order count duration).Undotted := by
  have hnames : (lostFields order count duration).givenNames = ["Lost events", "duration"] := by
    simp [lostFields, Value.givenNames, Value.fieldNames]
  rw [Value.Undotted, hnames]
  decide

/-- Each section is flattened. -/
theorem HasSection.flattened (hcontents : ∀ v ∈ e.contents, v.IsContent)
    (hnames : ∀ v ∈ e.contents, v.Undotted) (h : e.HasSection kind v) :
    v.Flattened v.sectionAttributes := by
  rcases h.mem_contents_or_lost with hv | ⟨order, count, duration, rfl⟩
  · obtain ⟨fields, hfields⟩ := (hcontents v hv).exists_fields
    exact Value.flattened_of_distinct hfields (hcontents v hv).distinct (hnames v hv)
  · exact Value.flattened_of_distinct rfl (distinct_lostFields _ _ _) (undotted_lostFields _ _ _)

/-- What an event is flattened into, in order. -/
def entries (e : Event) : List (EventKey × AttributeValue) :=
  e.ownAttributes ++ e.sections.flatMap fun (key, v) =>
    v.sectionAttributes.map fun (path, v) => (key path, v)

theorem attributes_eq (e : Event) : e.attributes = .ofList e.entries EventKey.order := rfl

/-- What an event shows on its own, and what it shows of its sections under names of their kinds. -/
inductive Shows (e : Event) : EventKey → AttributeValue → Prop
  | name : e.Shows .name (.string e.name)
  | timestamp : e.Shows .timestamp (.integer e.timestamp)
  | streamId : e.Shows .streamId (.integer e.streamId)
  | id {eventClass : EventClass} (hclass : e.eventClass? = some eventClass) :
      e.Shows .id (.integer eventClass.id)
  | logLevel {eventClass : EventClass} {level : Int} (hclass : e.eventClass? = some eventClass)
      (hlevel : eventClass.logLevel = some level) : e.Shows .logLevel (.integer level)
  | ofSection {kind : String → EventKey} {v : Value} {path : String} {a : AttributeValue}
      (hsection : e.HasSection kind v) (hpath : (path, a) ∈ v.sectionAttributes) :
      e.Shows (kind path) a

theorem mem_ownAttributes : (key, a) ∈ e.ownAttributes ↔
    (key = .name ∧ a = .string e.name) ∨ (key = .timestamp ∧ a = .integer e.timestamp) ∨
      (key = .streamId ∧ a = .integer e.streamId) ∨
      ∃ eventClass, e.eventClass? = some eventClass ∧
        ((key = .id ∧ a = .integer eventClass.id) ∨
          ∃ level, eventClass.logLevel = some level ∧ key = .logLevel ∧ a = .integer level) := by
  unfold ownAttributes
  cases e.eventClass? with
  | none => simp
  | some eventClass =>
    cases hlevel : eventClass.logLevel with
    | none => simp [hlevel]
    | some level => simp [hlevel]

theorem mem_entries : (key, a) ∈ e.entries ↔ e.Shows key a := by
  have hown : (key, a) ∈ e.ownAttributes → e.Shows key a := by
    rw [mem_ownAttributes]
    rintro (⟨rfl, rfl⟩ | ⟨rfl, rfl⟩ | ⟨rfl, rfl⟩ | ⟨eventClass, hclass, ⟨rfl, rfl⟩ |
      ⟨level, hlevel, rfl, rfl⟩⟩)
    · exact .name
    · exact .timestamp
    · exact .streamId
    · exact .id hclass
    · exact .logLevel hclass hlevel
  rw [entries, List.mem_append, List.mem_flatMap]
  constructor
  · rintro (h | ⟨⟨kind, v⟩, hsection, h⟩)
    · exact hown h
    · obtain ⟨⟨path, a⟩, hpath, ⟨⟩⟩ := List.mem_map.1 h
      exact .ofSection (mem_sections.1 hsection) hpath
  · intro h
    cases h with
    | ofSection hsection hpath =>
      exact .inr ⟨(_, _), mem_sections.2 hsection, List.mem_map.2 ⟨(_, _), hpath, rfl⟩⟩
    | id hclass => exact .inl (mem_ownAttributes.2 (by simp [hclass]))
    | logLevel hclass hlevel => exact .inl (mem_ownAttributes.2 (by simp [hclass, hlevel]))
    | _ => exact .inl (mem_ownAttributes.2 (by simp))

theorem ne_of_mem_ownAttributes (h : key ∈ e.ownAttributes.map Prod.fst)
    (hkind : kind ∈ EventKey.kinds) (path : String) : key ≠ kind path := by
  obtain ⟨⟨_, a⟩, hmem, rfl⟩ := List.mem_map.1 h
  have hrank : (kind path).rank > 4 := by
    simp only [EventKey.kinds, List.mem_cons, List.not_mem_nil, or_false] at hkind
    rcases hkind with rfl | rfl | rfl | rfl | rfl
    all_goals simp [EventKey.rank]
  rintro heq
  rw [← heq] at hrank
  rcases mem_ownAttributes.1 hmem with ⟨rfl, -⟩ | ⟨rfl, -⟩ | ⟨rfl, -⟩ |
    ⟨_, -, ⟨rfl, -⟩ | ⟨_, -, rfl, -⟩⟩
  all_goals simp [EventKey.rank] at hrank

theorem nodup_ownAttributes (e : Event) : (e.ownAttributes.map Prod.fst).Nodup := by
  unfold ownAttributes
  cases e.eventClass? with
  | none => simp
  | some eventClass =>
    cases hlevel : eventClass.logLevel with
    | none => simp [hlevel]
    | some level => simp [hlevel]

/-- No two of the things that an event is flattened into are named alike. -/
theorem nodup_entries (h : ∀ kind v, e.HasSection kind v → v.Flattened v.sectionAttributes) :
    (e.entries.map Prod.fst).Nodup := by
  have hkind {found : (String → EventKey) × Value} (hmem : found ∈ e.sections) :
      found.1 ∈ EventKey.kinds :=
    e.sublist_kinds.subset (List.mem_map_of_mem hmem)
  have hsections : (e.sections.flatMap fun (kind, v) =>
      v.sectionAttributes.map fun (path, a) => (kind path, a)).map Prod.fst =
        e.sections.flatMap fun (kind, v) => (v.sectionAttributes.map Prod.fst).map kind := by
    rw [List.map_flatMap]
    simp only [List.map_map]
    rfl
  rw [entries, List.map_append, hsections, List.nodup_append]
  refine ⟨e.nodup_ownAttributes, List.nodup_flatMap.2 ⟨?_, ?_⟩, ?_⟩
  · intro found hmem
    exact (h _ _ (mem_sections.1 hmem)).nodup.map (EventKey.injective_of_mem_kinds (hkind hmem))
  · refine (List.pairwise_map.1 (EventKey.pairwise_kinds.sublist e.sublist_kinds)).imp ?_
    intro found found' hne key hkey hkey'
    obtain ⟨path, -, rfl⟩ := List.mem_map.1 hkey
    obtain ⟨path', -, heq⟩ := List.mem_map.1 hkey'
    exact hne path path' heq.symm
  · intro key hkey key' hkey'
    obtain ⟨found, hmem, hkey'⟩ := List.mem_flatMap.1 hkey'
    obtain ⟨path, -, rfl⟩ := List.mem_map.1 hkey'
    exact ne_of_mem_ownAttributes hkey (hkind hmem) path

/-- The attributes of an event are what is shown of it. -/
theorem getElem?_attributes (hcontents : ∀ v ∈ e.contents, v.IsContent)
    (hnames : ∀ v ∈ e.contents, v.Undotted) : e.attributes[key]? = some a ↔ e.Shows key a := by
  have hnodup := nodup_entries fun _ _ h => h.flattened hcontents hnames
  rw [attributes_eq, getElem?_ofList hnodup, mem_entries]

/-- Going through a section of an event writes no name twice, and one attribute for each thing that
is shown in it. None of these is lost among those of other sections and the event's own. -/
theorem attributes_of_contents (hcontents : ∀ v ∈ e.contents, v.IsContent)
    (hnames : ∀ v ∈ e.contents, v.Undotted) :
    (∀ kind v, (kind, v) ∈ e.sections ↔ e.HasSection kind v) ∧
      (∀ kind v, e.HasSection kind v →
        KeyStack.generate v = v.sectionAttributes ∧ v.Flattened v.sectionAttributes) ∧
      (∀ key a, e.attributes[key]? = some a ↔ e.Shows key a) ∧
      e.attributes.size = e.ownAttributes.length +
        (e.sections.map fun found => found.2.sectionAttributes.length).sum := by
  have hflattened : ∀ kind v, e.HasSection kind v → v.Flattened v.sectionAttributes :=
    fun kind v h => h.flattened hcontents hnames
  refine ⟨fun kind v => mem_sections,
    fun kind v h => ⟨KeyStack.generate_eq v, hflattened kind v h⟩,
    fun key a => getElem?_attributes hcontents hnames, ?_⟩
  rw [attributes_eq, Std.TreeMap.size_ofList (pairwise_order (nodup_entries hflattened)), entries,
    List.length_append, List.length_flatMap]
  simp only [List.length_map]

/-- Fields of each kind, in a struct and an array as well as in an alternative. -/
def nestedType : StructType :=
  let byte : Declaration := .integer .byte
  let signed : Declaration := .integer { IntegerType.byte with isSigned := true }
  let char : Declaration := .integer { IntegerType.byte with encoding := .utf8 }
  let state : Declaration := .enumeration ⟨.byte, [⟨2, 2, "RUNNING", Int.le_refl 2⟩]⟩
  ⟨.byte,
    [("a", byte), ("s", .struct .byte [("b", signed), ("name", .string .utf8)]), ("state", state),
      ("other", state), ("arr", .array 2 byte), ("comm", .array 3 char),
      ("v", .variant ⟨"state", by decide⟩ [("RUNNING", byte)])]⟩

def nestedBytes : ByteArray := ⟨#[1, 0xFF, 0x78, 0, 2, 3, 4, 5, 0x6C, 0x73, 0, 6]⟩

/-- What these fields are flattened into. -/
def nestedAttributes : List (String × AttributeValue) :=
  [("a", .integer 1), ("s.b", .integer (-1)), ("s.name", .string "x"), ("state", .integer 2),
    ("state.label", .string "RUNNING"), ("other", .integer 3), ("arr.0", .integer 4),
    ("arr.1", .integer 5), ("comm", .string "ls"), ("v.RUNNING", .integer 6)]

/-- A single byte, of the same name as the first of these fields. -/
def singleType : StructType := ⟨.byte, [("a", .integer .byte)]⟩

/-- What is decoded from some bytes, if it can be flattened. -/
theorem exists_content {type : StructType} (scope : DynamicScope) (bytes : ByteArray)
    (attributes : List (String × AttributeValue)) (htype : type.declaration.WellFormed)
    (h : (Declaration.decoded? (type.declaration.decodeRoot scope ⟨.ofBytes bytes, .empty⟩)).map
      (fun v => (decide v.Undotted, v.sectionAttributes)) = some (true, attributes)) :
    ∃ v : Value, v.IsContent ∧ v.Undotted ∧ v.sectionAttributes = attributes := by
  cases hrun : type.declaration.decodeRoot scope ⟨.ofBytes bytes, .empty⟩ with
  | error e s =>
    rw [hrun] at h
    cases h
  | ok v s =>
    rw [hrun] at h
    obtain ⟨hundotted, hattributes⟩ := Prod.mk.inj (Option.some.inj h)
    exact ⟨v, ⟨type, _, _, s, htype, hrun⟩, of_decide_eq_true hundotted, hattributes⟩

/-- An event with all five sections. -/
def nestedEvent (header streamContext context packetContext fields : Value) : Event :=
  { streamId := 0, timestamp := 42, packet := 0, target := .unknown,
    packetContext := some packetContext,
    body := .decoded { id := 3, name := "sched_switch", logLevel := some 6 } (some header)
      (some streamContext) (some context) (some fields) }

/-- Each section has its own field `a`, and none of them takes the place of another. -/
theorem attributes_of_contents_nested :
    ∃ header streamContext context packetContext fields e,
      e = nestedEvent header streamContext context packetContext fields ∧
      (∀ v ∈ e.contents, v.IsContent) ∧ (∀ v ∈ e.contents, v.Undotted) ∧
      KeyStack.generate fields = fields.sectionAttributes ∧
      fields.Flattened fields.sectionAttributes ∧
      e.attributes[EventKey.header "a"]? = some (.integer 7) ∧
      e.attributes[EventKey.commonContext "a"]? = some (.integer 8) ∧
      e.attributes[EventKey.specificContext "a"]? = some (.integer 9) ∧
      e.attributes[EventKey.packetContext "a"]? = some (.integer 10) ∧
      e.attributes[EventKey.field "a"]? = some (.integer 1) ∧
      e.attributes[EventKey.field "v.RUNNING"]? = some (.integer 6) ∧
      e.attributes.size = 19 := by
  have hnested : nestedType.declaration.WellFormed := by
    simp [nestedType, StructType.declaration, Declaration.WellFormed, Declaration.AllWellFormed]
  have hsingle : singleType.declaration.WellFormed := by
    simp [singleType, StructType.declaration, Declaration.WellFormed, Declaration.AllWellFormed]
  obtain ⟨header, hheader, hheader', hseven⟩ := exists_content .eventHeader ⟨#[7]⟩
    [("a", .integer 7)] hsingle (by decide +kernel)
  obtain ⟨streamContext, hstream, hstream', height⟩ := exists_content .streamEventContext ⟨#[8]⟩
    [("a", .integer 8)] hsingle (by decide +kernel)
  obtain ⟨context, hcontext, hcontext', hnine⟩ := exists_content .eventContext ⟨#[9]⟩
    [("a", .integer 9)] hsingle (by decide +kernel)
  obtain ⟨packetContext, hpacket, hpacket', hten⟩ := exists_content .packetContext ⟨#[10]⟩
    [("a", .integer 10)] hsingle (by decide +kernel)
  obtain ⟨fields, hfields, hfields', hleaves⟩ := exists_content .eventFields nestedBytes
    nestedAttributes hnested (by decide +kernel)
  generalize he : nestedEvent header streamContext context packetContext fields = e
  have hbody : e.body = .decoded { id := 3, name := "sched_switch", logLevel := some 6 }
      (some header) (some streamContext) (some context) (some fields) := he ▸ rfl
  have hpacketContext : e.packetContext = some packetContext := he ▸ rfl
  have hmem : ∀ v ∈ e.contents,
      v = packetContext ∨ v = header ∨ v = streamContext ∨ v = context ∨ v = fields := by
    intro v hv
    rw [← he] at hv
    simpa [contents, nestedEvent] using hv
  have hcontents : ∀ v ∈ e.contents, v.IsContent := fun v hv => by
    rcases hmem v hv with rfl | rfl | rfl | rfl | rfl <;> assumption
  have hnames : ∀ v ∈ e.contents, v.Undotted := fun v hv => by
    rcases hmem v hv with rfl | rfl | rfl | rfl | rfl <;> assumption
  obtain ⟨-, hflattened, hshows, hsize⟩ := attributes_of_contents hcontents hnames
  obtain ⟨hgenerate, hflat⟩ := hflattened .field fields (.field hbody)
  refine ⟨header, streamContext, context, packetContext, fields, e, he.symm, hcontents, hnames,
    hgenerate, hflat, (hshows _ _).2 (.ofSection (.header hbody) ?_),
    (hshows _ _).2 (.ofSection (.commonContext hbody) ?_),
    (hshows _ _).2 (.ofSection (.specificContext hbody) ?_),
    (hshows _ _).2 (.ofSection (.packetContext hpacketContext) ?_),
    (hshows _ _).2 (.ofSection (.field hbody) ?_),
    (hshows _ _).2 (.ofSection (.field hbody) ?_), ?_⟩
  · rw [hseven]
    exact List.mem_cons_self
  · rw [height]
    exact List.mem_cons_self
  · rw [hnine]
    exact List.mem_cons_self
  · rw [hten]
    exact List.mem_cons_self
  · rw [hleaves]
    exact List.mem_cons_self
  · rw [hleaves]
    decide
  · rw [hsize, ← he]
    simp [nestedEvent, sections, ownAttributes, eventClass?, hseven, height, hnine, hten, hleaves,
      nestedAttributes]

end Event

end CommonTrace
