import CommonTrace.Proofs.Decoding.Writing
import CommonTrace.Proofs.Packet.Appending
import CommonTrace.Proofs.Packet.Scanning

/-!
# Indexing what was written

A packet that starts with sections as they are written is indexed by the fields of its context. A
file of packets of which each is found behind the one before it has an index of all of them, in
which every end that was not known is where the next packet begins.
-/
namespace CommonTrace

open Decoding

namespace Written

/-- The attribute that a field is reported by. -/
def scalar : Written → AttributeValue
  | number _ value => .integer value
  | text content => .string content

theorem ofValue?_value (first : Nat) (written : Written) :
    AttributeValue.ofValue? (written.value first) = some written.scalar := by
  cases written <;> rfl

/-- The scalars of some fields. -/
def scalars (fields : List (String × Written)) : List (String × AttributeValue) :=
  fields.map fun (name, written) => (name, written.scalar)

/-- The scalars among the values of some fields are all of them. -/
theorem filterMap_values (first : Nat) (fields : List (String × Written)) :
    (values first fields).filterMap (fun (name, value) =>
      (AttributeValue.ofValue? value).map fun scalar => (name, scalar)) = scalars fields := by
  induction fields generalizing first with
  | nil => rfl
  | cons f rest ih =>
    obtain ⟨name, written⟩ := f
    rw [values, List.filterMap_cons]
    dsimp only
    rw [ofValue?_value, ih]
    rfl

theorem lookup_scalars (fields : List (String × Written)) (name : String) :
    (scalars fields).lookup name = (fields.lookup name).map scalar := by
  induction fields with
  | nil => rfl
  | cons f rest ih =>
    obtain ⟨name', written⟩ := f
    show List.lookup name ((name', written.scalar) :: scalars rest) = _
    rw [List.lookup_cons, List.lookup_cons, ih]
    cases name == name' with
    | false => rfl
    | true => rfl

/-- Fields with names of their own are found by them. -/
theorem getElem?_attributesOf {first : Nat} {fields : List (String × Written)}
    (h : (fields.map Prod.fst).Nodup) (name : String) :
    (PacketEntry.attributesOf (values first fields))[name]? = (fields.lookup name).map scalar := by
  have hattributes : PacketEntry.attributesOf (values first fields) =
      Std.TreeMap.ofList (scalars fields) := by
    unfold PacketEntry.attributesOf
    rw [filterMap_values]
  rw [hattributes, ← lookup_scalars]
  cases hfound : (scalars fields).lookup name with
  | none =>
    apply Std.TreeMap.getElem?_ofList_of_contains_eq_false
    rw [List.lookup_eq_none_iff] at hfound
    simpa using fun scalar hmem => by simpa using hfound (name, scalar) hmem
  | some scalar =>
    obtain ⟨before, after, hsplit, -⟩ := List.lookup_eq_some_iff.1 hfound
    have hdistinct : (scalars fields).Pairwise fun a b => ¬compare a.1 b.1 = .eq := by
      have hnames : (scalars fields).map Prod.fst = fields.map Prod.fst := by
        simp [scalars, Function.comp_def]
      rw [← hnames, List.Nodup, List.pairwise_map] at h
      exact h.imp fun hne => by simpa using hne
    have hmem : (name, scalar) ∈ scalars fields := by
      rw [hsplit]
      exact List.mem_append_right _ List.mem_cons_self
    exact Std.TreeMap.getElem?_ofList_of_mem Std.ReflCmp.compare_self hdistinct hmem

/-- A number of 64 bits is found by the name of its field. -/
theorem number?_attributesOf {first : Nat} {fields : List (String × Written)}
    (h : (fields.map Prod.fst).Nodup) {name : String} {width : Width.Bytes}
    {number : Nat} (hfield : fields.lookup name = some (.number width number))
    (hlt : number < 2 ^ 64) :
    PacketEntry.number? (PacketEntry.attributesOf (values first fields)) name = some number := by
  have hnumber : Width.unsigned? 64 (number : Int) = some number :=
    Width.unsigned?_eq_some.2 ⟨rfl, hlt⟩
  rw [PacketEntry.number?, getElem?_attributesOf h, hfield, Option.map_some, Option.bind_some,
    scalar, AttributeValue.unsigned?, AttributeValue.integer?, Option.bind_some, hnumber]

/-- Fields with names of their own, among which are the sizes and the times of a packet. -/
structure Tells (fields : List (String × Written))
    (contentSize packetSize timestampBegin timestampEnd : Nat) : Prop where
  nodup : (fields.map Prod.fst).Nodup
  sound : ∀ f ∈ fields, f.2.Sound
  content : fields.lookup "content_size" = some (.number .eight contentSize)
  packet : fields.lookup "packet_size" = some (.number .eight packetSize)
  begins : fields.lookup "timestamp_begin" = some (.number .eight timestampBegin)
  ends : fields.lookup "timestamp_end" = some (.number .eight timestampEnd)

namespace Tells

variable {fields : List (String × Written)}
  {contentSize packetSize timestampBegin timestampEnd : Nat}

theorem number? (h : Tells fields contentSize packetSize timestampBegin timestampEnd) {first : Nat}
    {name : String} {number : Nat} (hfield : fields.lookup name = some (.number .eight number)) :
    PacketEntry.number? (PacketEntry.attributesOf (values first fields)) name = some number := by
  obtain ⟨before, after, hsplit, -⟩ := List.lookup_eq_some_iff.1 hfield
  have hmem : (name, Written.number .eight number) ∈ fields := by
    rw [hsplit]
    exact List.mem_append_right _ List.mem_cons_self
  exact number?_attributesOf h.nodup hfield (h.sound _ hmem)

/-- The entry that the fields describe has the sizes and the times that they tell. -/
theorem described_eq (h : Tells fields contentSize packetSize timestampBegin timestampEnd)
    (offset streamId payloadStart first fileSize lostEvents : Nat) :
    PacketEntry.described offset streamId payloadStart
        (PacketEntry.attributesOf (values first fields)) fileSize lostEvents =
      let attributes := PacketEntry.attributesOf (values first fields)
      { offset, streamId, packetSize, contentSize, payloadStart, timestampBegin, timestampEnd,
        lostEvents, eventsDiscarded := PacketEntry.number? attributes "events_discarded",
        target := .ofAttributes attributes, attributes } := by
  unfold PacketEntry.described PacketEntry.packetSizeOf PacketEntry.contentSizeOf
  rw [h.number? h.content, h.number? h.packet, h.number? h.begins, h.number? h.ends]
  rfl

end Tells

end Written

namespace Preamble

variable {metadata : Metadata} {offset first : Nat} {bytes : List UInt8} {t : ScopeTree}
  {id : Option Nat} {streamClass : StreamClass} {header : Value}
  {fields : List (String × Written)} {preamble : Preamble}

/-- A context is decoded from the bytes that are written for its fields. The events of the packet
start behind them. -/
theorem decodes_context (hclass : classOf metadata id = .ok streamClass)
    (hcontext : streamClass.packetContext = some (Written.sectionType fields))
    (hsound : ∀ f ∈ fields, f.2.Sound) (first : Nat) (t : ScopeTree) :
    Decodes (decodeContext metadata id) t first (Written.allBytes fields)
      { streamClass, context := some (Written.sectionValue .packetContext first fields),
        payloadStart := 8 * (first + (Written.allBytes fields).length) } := by
  refine (Decodes.lift hclass).andThen fun t => ?_
  rw [hcontext]
  exact (Written.decodes_section hsound .packetContext first t).before fun t =>
    Decodes.position.andThen fun t => Decodes.pure _

/-- Without a header the context comes first. -/
theorem decodes_of_noHeader (hheader : metadata.packetHeader = none)
    (h : ∀ t, Decodes (decodeContext metadata none) t first bytes preamble) :
    Decodes (decode metadata offset) t first bytes preamble := by
  unfold decode
  rw [hheader]
  exact Decodes.noSection.andThen h

/-- A header that names a stream comes before its context. -/
theorem decodes_of_header {headerFields : List (String × Written)}
    (hheader : metadata.packetHeader = some (Written.sectionType headerFields))
    (hsound : ∀ f ∈ headerFields, f.2.Sound)
    (hcheck : checkHeader metadata offset
      (Written.sectionValue .packetHeader first headerFields) = .ok id)
    (h : ∀ t, Decodes (decodeContext metadata id) t
      (first + (Written.allBytes headerFields).length) bytes preamble) :
    Decodes (decode metadata offset) t first (Written.allBytes headerFields ++ bytes) preamble := by
  unfold decode
  rw [hheader]
  exact (Written.decodes_section hsound .packetHeader first t).bind fun t =>
    (Decodes.lift hcheck).andThen h

end Preamble

namespace Metadata

variable {metadata : Metadata} {file : ByteArray} {policy : LostEventsPolicy}
  {offset lostSoFar lostEvents : Nat} {bytes rest : List UInt8} {preamble : Preamble}

/-- The preamble at an offset of a file is the one that is written there. -/
theorem preambleAlone_of_decodes
    (h : Decodes (Preamble.decode metadata offset) metadata.baseScopes 0 bytes preamble)
    (hbytes : (file.extract offset file.size).data.toList = bytes ++ rest) :
    metadata.preambleAlone file offset = .ok preamble := by
  have hahead := Cursor.ahead_ofBytes (file.extract offset file.size)
  rw [hbytes] at hahead
  obtain ⟨_, c', t', hrun, rfl, -⟩ := h _ rest rfl hahead
  unfold preambleAlone preambleInRest
  rw [hrun]
  rfl

/-- The packet at an offset is the one that the preamble there describes. -/
theorem entryAlone_of_described (hpreamble : metadata.preambleAlone file offset = .ok preamble)
    {e : PacketEntry} (he : e = .described offset preamble.streamClass.id preamble.payloadStart
      (PacketEntry.attributesOf preamble.fields) file.size lostEvents)
    (hcheck : e.check file.size = .ok ())
    (hlost : PacketEntry.lostBefore offset e.eventsDiscarded lostSoFar policy = .ok lostEvents) :
    metadata.entryAlone policy file offset lostSoFar = .ok (e, preamble.streamClass) := by
  have hentry : PacketEntry.ofContext offset preamble.streamClass.id preamble.payloadStart
      preamble.fields file.size lostSoFar policy = .ok e := by
    subst he
    exact PacketEntry.ofContext_eq_ok_iff.2 ⟨rfl, hcheck, hlost⟩
  rw [entryAlone_of_preamble hpreamble, hentry]
  rfl

end Metadata

namespace PacketIndex

variable {metadata : Metadata} {policy : LostEventsPolicy} {file : ByteArray}
  {streamClass : StreamClass}

/-- The entries found from a place of a file to its end, of which each is found behind the one
before it and does not begin earlier. -/
inductive Found (metadata : Metadata) (policy : LostEventsPolicy) (file : ByteArray)
    (streamClass : StreamClass) : (offset lostSoFar earliest : Nat) → List PacketEntry → Prop
  | nil {offset lostSoFar earliest : Nat} (h : file.size ≤ offset) :
      Found metadata policy file streamClass offset lostSoFar earliest []
  | cons {offset lostSoFar earliest : Nat} {entry : PacketEntry} {entries : List PacketEntry}
      (hlt : offset < file.size)
      (halone : metadata.entryAlone policy file offset lostSoFar = .ok (entry, streamClass))
      (hsize : entry.packetSize ≠ 0) (hbegin : earliest ≤ entry.timestampBegin)
      (hrest : Found metadata policy file streamClass (offset + entry.byteSize)
        (entry.eventsDiscarded.getD lostSoFar) entry.timestampBegin entries) :
      Found metadata policy file streamClass offset lostSoFar earliest (entry :: entries)

/-- The last entry that has been indexed, if there is one, is of the class of the entries to be
found and begins before them. -/
structure Progress.Behind (p : Progress) (streamClass : StreamClass) (earliest : Nat)
    (init : List PacketEntry) (last : PacketEntry) : Prop where
  entries : p.index.entries.toList = init ++ [last]
  ofClass : p.streamClass = some streamClass
  earliest_eq : last.timestampBegin = earliest

/-- What is found behind an entry is added to the index. -/
theorem scan_of_found {offset lostSoFar earliest : Nat} {entries init : List PacketEntry}
    {last : PacketEntry} {p : Progress}
    (h : Found metadata policy file streamClass offset lostSoFar earliest entries)
    (hoffset : p.offset = offset) (hlost : p.lostSoFar = lostSoFar)
    (hp : p.Behind streamClass earliest init last) :
    ∃ p', scan metadata policy file p = .ok p' ∧ p'.streamClass = some streamClass ∧
      p'.index.entries.toList = init ++ closeEnds (last :: entries) := by
  induction h generalizing p init last with
  | nil hend =>
    exact ⟨p, scan_of_end (by rwa [hoffset]), hp.ofClass, hp.entries⟩
  | @cons offset lostSoFar earliest entry entries hlt halone hsize hbegin hrest ih =>
    subst hoffset hlost
    have hclass : checkClass p.streamClass p.offset (entry, streamClass) =
        .ok (entry, streamClass) := by
      rw [hp.ofClass]
      exact if_pos rfl
    obtain ⟨index, happend, hindex⟩ : ∃ index, p.index.append entry = .ok index ∧
        index.entries.toList = init ++ [last.closedBy entry] ++ [entry] := by
      rw [← hp.earliest_eq] at hbegin
      obtain ⟨index, happend, hindex⟩ := append_of_last hp.entries hbegin
      exact ⟨index, happend, by rw [hindex, List.append_assoc]; rfl⟩
    rw [scan_of_more hlt (scanStep_of_found halone hclass hsize happend)]
    have hadded : (p.added entry streamClass index).Behind streamClass entry.timestampBegin
        (init ++ [last.closedBy entry]) entry :=
      ⟨hindex, by rw [Progress.added, hp.ofClass]; rfl, rfl⟩
    obtain ⟨p', hscan, hclass', hentries⟩ := ih rfl rfl hadded
    refine ⟨p', hscan, hclass', ?_⟩
    rw [hentries, List.append_assoc]
    rfl

/-- The index of a file is made of the entries that are found from its start to its end. -/
theorem build_of_found {entry : PacketEntry} {entries : List PacketEntry}
    (h : Found metadata policy file streamClass 0 0 0 (entry :: entries)) :
    build metadata policy file =
      .ok (⟨(closeEnds (entry :: entries)).toArray⟩, some streamClass) := by
  cases h with
  | cons hlt halone hsize hbegin hrest =>
    have happend : (Progress.start metadata).index.append entry = .ok ⟨#[entry]⟩ := rfl
    have hstep := scanStep_of_found (p := .start metadata) halone rfl hsize happend
    have hbehind : ((Progress.start metadata).added entry streamClass ⟨#[entry]⟩).Behind streamClass
        entry.timestampBegin [] entry := ⟨rfl, rfl, rfl⟩
    obtain ⟨p', hscan, hclass, hentries⟩ := scan_of_found hrest rfl rfl hbehind
    have hindex : p'.index = ⟨(closeEnds (entry :: entries)).toArray⟩ := by
      rw [← List.nil_append (closeEnds (entry :: entries)), ← hentries]
    rw [build_eq_scan, scan_of_more (p := .start metadata) hlt hstep, hscan, ← hindex, ← hclass]
    rfl

end PacketIndex

end CommonTrace
