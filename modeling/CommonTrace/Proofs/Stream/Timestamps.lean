import CommonTrace.Proofs.Stream.Losses
import CommonTrace.Proofs.Stream.Writing
import Mathlib.Data.Int.ModEq
import Mathlib.Data.List.Forall2
import Mathlib.Order.Bounds.Basic

/-!
# The times of events

A field of fewer than 64 bits holds the low part of a time. The time that is told from it is the
first one that follows the time before and has this low part, or the low part alone if no such time
fits into 64 bits. So times are told exactly while no two of them are a turn of the field apart,
and in order as long as they fit. The times of a packet start from the time at which it begins.
-/
namespace CommonTrace

/-- Whether a field of `bits` bits with a value may tell of a time after `last`. -/
structure Follows (last value bits time : Nat) : Prop where
  le : last ≤ time
  lt : time < 2 ^ 64
  low : time ≡ value [MOD 2 ^ bits]

section LowPart

variable {last value value' bits time : Nat}

/-- Only the low part of a value counts. -/
theorem reconstructTimestamp_congr (hbits : bits < 64) (h : value ≡ value' [MOD 2 ^ bits]) :
    reconstructTimestamp last value bits = reconstructTimestamp last value' bits := by
  have hlow : value % 2 ^ bits = value' % 2 ^ bits := h
  rw [reconstructTimestamp_of_narrow hbits, reconstructTimestamp_of_narrow hbits, hlow]

/-- A number that is extended to 64 bits keeps its low part. -/
theorem Value.pattern_modEq (x : Int) (hbits : bits ≤ 64) :
    Value.pattern x ≡ (x % 2 ^ bits).toNat [MOD 2 ^ bits] := by
  have hpattern : (Value.pattern x : Int) = x % 2 ^ 64 :=
    Int.toNat_of_nonneg (Int.emod_nonneg x (by decide))
  have hlow : ((x % 2 ^ bits).toNat : Int) = x % 2 ^ bits :=
    Int.toNat_of_nonneg (Int.emod_nonneg x (pow_ne_zero _ (by decide)))
  have hdvd : (2 ^ bits : Int) ∣ 2 ^ 64 := pow_dvd_pow 2 hbits
  apply Int.natCast_modEq_iff.1
  rw [hpattern, hlow, Nat.cast_pow]
  exact (Int.emod_emod_of_dvd x hdvd).trans (Int.emod_emod_of_dvd x (dvd_refl _)).symm

theorem reconstructTimestamp_of_follows (hbits : bits < 64) (h : Follows last value bits time)
    (hturn : time < last + 2 ^ bits) : reconstructTimestamp last value bits = time := by
  have hlow : value ≡ time % 2 ^ bits [MOD 2 ^ bits] := h.low.symm.trans (Nat.mod_modEq _ _).symm
  rw [reconstructTimestamp_congr hbits hlow, reconstructTimestamp_of_lt h.le hturn h.lt]

/-- A turn of the field earlier the low part is the same. -/
theorem Follows.sub (h : Follows last value bits time) (hturn : last + 2 ^ bits ≤ time) :
    Follows last value bits (time - 2 ^ bits) where
  le := Nat.le_sub_of_add_le hturn
  lt := Nat.lt_of_le_of_lt (Nat.sub_le _ _) h.lt
  low := by
    have hle : 2 ^ bits ≤ time := Nat.le_trans (Nat.le_add_left _ _) hturn
    refine Nat.ModEq.trans ?_ h.low
    rw [Nat.ModEq, Nat.mod_eq_sub_mod hle]

/-- The time that is told follows, and no later than any other that does. -/
theorem follows_reconstructTimestamp (hbits : bits < 64) (h : Follows last value bits time) :
    Follows last value bits (reconstructTimestamp last value bits) ∧
      reconstructTimestamp last value bits ≤ time := by
  induction time using Nat.strong_induction_on with
  | _ time ih =>
    by_cases hturn : time < last + 2 ^ bits
    · rw [reconstructTimestamp_of_follows hbits h hturn]
      exact ⟨h, Nat.le_refl _⟩
    · have hpos : 0 < 2 ^ bits := Nat.two_pow_pos bits
      have hsub := h.sub (Nat.le_of_not_lt hturn)
      obtain ⟨hfollows, hle⟩ := ih _ (by omega) hsub
      exact ⟨hfollows, Nat.le_trans hle (Nat.sub_le _ _)⟩

theorem isLeast_reconstructTimestamp (hbits : bits < 64) (h : Follows last value bits time) :
    IsLeast {t | Follows last value bits t} (reconstructTimestamp last value bits) :=
  ⟨(follows_reconstructTimestamp hbits h).1, fun _ ht => (follows_reconstructTimestamp hbits ht).2⟩

/-- A turn that fits into 64 bits has a time with the low part, which follows if it is not before
the last one. -/
theorem follows_of_turn {turn : Nat} (hbits : bits < 64) (hturn : turn < 2 ^ (64 - bits))
    (hle : last ≤ 2 ^ bits * turn + value % 2 ^ bits) :
    Follows last value bits (2 ^ bits * turn + value % 2 ^ bits) where
  le := hle
  lt := by
    have hnext : 2 ^ bits * (turn + 1) ≤ 2 ^ bits * 2 ^ (64 - bits) := Nat.mul_le_mul_left _ hturn
    rw [← Nat.pow_add, Nat.add_sub_cancel' (Nat.le_of_lt hbits), Nat.mul_succ] at hnext
    have hlow := Nat.mod_lt value (Nat.two_pow_pos bits)
    omega
  low := by rw [Nat.ModEq, Nat.mul_add_mod, Nat.mod_mod]

/-- If no time follows that fits into 64 bits, the low part is told alone. -/
theorem reconstructTimestamp_of_not_follows (hlast : last < 2 ^ 64) (hbits : bits < 64)
    (h : ∀ time, ¬Follows last value bits time) :
    reconstructTimestamp last value bits = value % 2 ^ bits := by
  have hturns : 2 ^ bits * 2 ^ (64 - bits) = 2 ^ 64 := by
    rw [← Nat.pow_add, Nat.add_sub_cancel' (Nat.le_of_lt hbits)]
  have hlastTurn := Nat.div_add_mod last (2 ^ bits)
  have hlastLow := Nat.mod_lt last (Nat.two_pow_pos bits)
  have hturn : last / 2 ^ bits < 2 ^ (64 - bits) := by
    apply Nat.div_lt_of_lt_mul
    rwa [hturns]
  have hback : 2 ^ bits * (last / 2 ^ bits) + value % 2 ^ bits < last :=
    Nat.lt_of_not_le fun hle => h _ (follows_of_turn hbits hturn hle)
  -- the turn of the last time is the last one, since a time of the next turn would follow
  have hend : last / 2 ^ bits + 1 = 2 ^ (64 - bits) := by
    refine Nat.le_antisymm hturn (Nat.le_of_not_lt fun hlt => h _ (follows_of_turn hbits hlt ?_))
    rw [Nat.mul_succ]
    omega
  have hover : 2 ^ bits * (last / 2 ^ bits) + 2 ^ bits = 2 ^ 64 := by
    rw [← Nat.mul_succ, Nat.succ_eq_add_one, hend, hturns]
  have hlow : value % 2 ^ bits < 2 ^ 64 := by
    have hlt := Nat.mod_lt value (Nat.two_pow_pos bits)
    omega
  rw [reconstructTimestamp_of_narrow hbits,
    show last - last % 2 ^ bits = 2 ^ bits * (last / 2 ^ bits) by omega, if_pos hback,
    Nat.add_right_comm, hover, Nat.add_mod_left, Nat.mod_eq_of_lt hlow]

/-- Times no two of which are a turn of the field apart are told from their low parts. -/
theorem scanl_reconstructTimestamp (first : Nat) (times : List Nat)
    (hlt : ∀ time ∈ times, time < 2 ^ 64)
    (hchain : (first :: times).IsChain fun t t' => t ≤ t' ∧ t' < t + 2 ^ bits) :
    (times.map (· % 2 ^ bits)).scanl (reconstructTimestamp · · bits) first = first :: times := by
  induction times generalizing first with
  | nil => rfl
  | cons time times ih =>
    obtain ⟨⟨hle, hturn⟩, hrest⟩ := List.isChain_cons_cons.1 hchain
    rw [List.map_cons, List.scanl_cons, reconstructTimestamp_of_lt hle hturn (hlt time (by simp)),
      ih time (fun t ht => hlt t (by simp [ht])) hrest]

end LowPart

namespace Event

/-- The field of an event that holds the low part of its time. -/
def timeField? (e : Event) : Option (IntegerType × Int) :=
  match e.body with
  | .decoded _ header _ _ _ => header.bind fun header => (OpenPacket.headerFields header).2
  | .lost _ _ _ => none

/-- The time of an event if a given one is the time before. -/
def timeAfter (last : Nat) (e : Event) : Nat :=
  match e.timeField? with
  | some (type, value) => reconstructTimestamp last (Value.pattern value) type.size
  | none => last

end Event

/-- Whether the time of each event is told from the time before it. -/
def Timed (last : Nat) : List Event → Prop
  | [] => True
  | event :: rest => event.timestamp = event.timeAfter last ∧ Timed event.timestamp rest

/-- Times at which events may have happened: they are in order, they fit into 64 bits, and the
fields of the events hold their low parts. -/
structure Timeline (first : Nat) (events : List Event) (times : List Nat) : Prop where
  low : List.Forall₂ (fun event time => ∀ type value, event.timeField? = some (type, value) →
    time ≡ Value.pattern value [MOD 2 ^ type.size]) events times
  ordered : (first :: times).Pairwise (· ≤ ·)
  lt : ∀ time ∈ times, time < 2 ^ 64

/-- An event is not before the one before it, nor after any time at which it may have happened. -/
theorem Event.timeAfter_le {last time : Nat} {event : Event} (hle : last ≤ time)
    (hlt : time < 2 ^ 64)
    (hnarrow : ∀ type value, event.timeField? = some (type, value) → type.size < 64)
    (hlow : ∀ type value, event.timeField? = some (type, value) →
      time ≡ Value.pattern value [MOD 2 ^ type.size]) :
    last ≤ event.timeAfter last ∧ event.timeAfter last ≤ time := by
  unfold timeAfter
  split
  next type value hfield =>
    have hfollows : Follows last (Value.pattern value) type.size time :=
      ⟨hle, hlt, hlow type value hfield⟩
    obtain ⟨htold, hleast⟩ := follows_reconstructTimestamp (hnarrow type value hfield) hfollows
    exact ⟨htold.le, hleast⟩
  · exact ⟨Nat.le_refl _, hle⟩

/-- Events are in order if there are times at which they may have happened. -/
theorem isChain_of_timed {last : Nat} {events : List Event} {times : List Nat}
    (h : Timed last events)
    (hnarrow : ∀ event ∈ events, ∀ type value,
      event.timeField? = some (type, value) → type.size < 64)
    (htimes : Timeline last events times) :
    (last :: events.map Event.timestamp).IsChain (· ≤ ·) := by
  induction events generalizing last times with
  | nil => exact .singleton _
  | cons event rest ih =>
    obtain ⟨htold, hrest⟩ := h
    obtain ⟨hlow, hordered, hlt⟩ := htimes
    cases hlow with
    | @cons _ time _ times hlow hlows =>
      obtain ⟨hle, hafter⟩ := List.pairwise_cons.1 hordered
      obtain ⟨hahead, hlater⟩ := List.pairwise_cons.1 hafter
      obtain ⟨hnotBefore, hnotAfter⟩ := Event.timeAfter_le (hle time (by simp)) (hlt time (by simp))
        (hnarrow event (by simp)) hlow
      rw [← htold] at hnotBefore hnotAfter
      rw [List.map_cons, List.isChain_cons_cons]
      refine ⟨hnotBefore, ih hrest (fun e he => hnarrow e (by simp [he])) ⟨hlows, ?_, ?_⟩⟩
      · refine List.pairwise_cons.2 ⟨fun t ht => ?_, hlater⟩
        exact Nat.le_trans hnotAfter (hahead t ht)
      · exact fun t ht => hlt t (by simp [ht])

namespace OpenPacket

variable {streamClass : StreamClass} {p : OpenPacket} {scopes : ScopeTree} {s s' : Decoding}
  {event : Event}

theorem timestamp_of_decodeEvent (h : p.decodeEvent streamClass s = .ok event s') :
    event.timestamp = event.timeAfter p.timestamp := by
  obtain ⟨_, header, _, _, _, hbody, -, htime⟩ := event_of_decodeEvent h
  rw [htime, Event.timeAfter, Event.timeField?, hbody]
  cases header with
  | none => rfl
  | some header => rfl

/-- The time of each event of a packet is told from the time before it. -/
theorem timed_results (streamClass : StreamClass) (scopes : ScopeTree) (p : OpenPacket) :
    Timed p.timestamp (StreamReader.events (p.results streamClass scopes)) := by
  fun_induction results streamClass scopes p with
  | case1 p e hnext => trivial
  | case2 p hnext => trivial
  | case3 p cursor hnext e s hrun => trivial
  | case4 p cursor hnext event s hrun hlt ih => exact ⟨timestamp_of_decodeEvent hrun, ih⟩

end OpenPacket

/-- The times of a packet start from the time at which it begins. -/
theorem StreamFile.Indexed.timed {f : StreamFile} {place : Nat} {entry : PacketEntry}
    (hf : f.Indexed) (hentry : f.index.entries[place]? = some entry) :
    Timed entry.timestampBegin (StreamReader.events (f.resultsOf place entry)) := by
  obtain ⟨preamble, fresh, p, halone⟩ : ∃ preamble fresh p,
      f.ReadsAlone place entry preamble fresh p := hf.readsAlone hentry
  have htimed := OpenPacket.timed_results f.streamClass fresh p
  rw [halone.timestamp] at htimed
  rw [halone.results, StreamReader.events_append]
  unfold OpenPacket.lostRecord?
  split
  · exact htimed
  · rw [halone.entry_eq]
    exact ⟨rfl, htimed⟩

namespace StreamReader

/-- The low part of a time, whatever stands above it, tells the first time that follows the one
before and has this low part, or only itself if there is no such time in 64 bits. So times less than
a turn of the field apart are told from their low parts. The records and events of a packet whose
times are told from fields of fewer than 64 bits are in order and not before the packet begins, if
there are times in 64 bits at which they may have happened. -/
theorem pairwise_timestamp :
    (∀ last value bits, last < 2 ^ 64 → bits < 64 →
      ((∃ time, Follows last value bits time) →
        IsLeast {time | Follows last value bits time} (reconstructTimestamp last value bits)) ∧
      ((∀ time, ¬Follows last value bits time) →
        reconstructTimestamp last value bits = value % 2 ^ bits) ∧
      (∀ value', value ≡ value' [MOD 2 ^ bits] →
        reconstructTimestamp last value bits = reconstructTimestamp last value' bits) ∧
      ∀ x : Int, reconstructTimestamp last (Value.pattern x) bits =
        reconstructTimestamp last (x % 2 ^ bits).toNat bits) ∧
    (∀ bits first times, (∀ time ∈ times, time < 2 ^ 64) →
      (first :: times).IsChain (fun t t' => t ≤ t' ∧ t' < t + 2 ^ bits) →
        (times.map (· % 2 ^ bits)).scanl (reconstructTimestamp · · bits) first = first :: times) ∧
    ∀ metadata policy input f, StreamFile.ofInput metadata policy input = .ok f →
      ∀ place entry, f.index.entries[place]? = some entry →
        let records := (events (start f).drain.1).filter (·.packet = place)
        (∀ event ∈ records, ∀ type value,
          event.timeField? = some (type, value) → type.size < 64) →
        (∃ times, Timeline entry.timestampBegin records times) →
          (entry.timestampBegin :: records.map Event.timestamp).Pairwise (· ≤ ·) := by
  refine ⟨fun last value bits hlast hbits => ⟨?_, ?_, ?_, fun x => ?_⟩,
    fun bits first times => scanl_reconstructTimestamp first times, ?_⟩
  · rintro ⟨time, htime⟩
    exact isLeast_reconstructTimestamp hbits htime
  · exact reconstructTimestamp_of_not_follows hlast hbits
  · exact fun value' => reconstructTimestamp_congr hbits
  · exact reconstructTimestamp_congr hbits (Value.pattern_modEq x (Nat.le_of_lt hbits))
  · intro metadata policy input f h place entry hentry records hnarrow htimes
    obtain ⟨hf, -, -⟩ := StreamFile.ofInput_eq_ok h
    obtain ⟨hplace, rfl⟩ := Array.getElem?_eq_some_iff.1 hentry
    obtain ⟨times, htimes⟩ := htimes
    have hrecords : records = events (f.resultsOf place f.index.entries[place]) := by
      rw [← StreamFile.filter_events f hplace]
      simp only [records, drain_eq hf (pending_start f)]
    have htimed : Timed f.index.entries[place].timestampBegin records := by
      rw [hrecords]
      exact hf.timed (Array.getElem?_eq_getElem hplace)
    exact (isChain_of_timed htimed hnarrow htimes).pairwise

/-- A trace with one class of events, the header of which has a field for the low byte of a time. -/
def clockTrace : Metadata :=
  { byteOrder := .little,
    streams := [{ id := 0, eventHeader := some ⟨.byte, [("timestamp", .integer .byte)]⟩,
                  events := [{ id := 0, name := "clock" }] }] }

/-- Three events, before the second of which the low byte overflows. -/
def clockInput : Input := { path := "stream", content := .ok ⟨#[250, 5, 5]⟩ }

/-- A byte that is less than the low byte of the time before tells a time in the next turn, unless
there is none. The three events happened at 250, 261 and 261. -/
theorem pairwise_timestamp_clock :
    IsLeast {time | Follows 0x1000000F0 0x10 8 time} 0x100000110 ∧
      (∀ time, ¬Follows (2 ^ 64 - 1) 3 8 time) ∧ reconstructTimestamp (2 ^ 64 - 1) 3 8 = 3 ∧
      [250, 5, 5].scanl (reconstructTimestamp · · 8) 0 = [0, 250, 261, 261] ∧
      ∃ f entry, StreamFile.ofInput clockTrace .clamp clockInput = .ok f ∧
        f.index.entries[0]? = some entry ∧
        let records := (events (start f).drain.1).filter (·.packet = 0)
        records.map Event.timestamp = [250, 261, 261] ∧
          (∀ event ∈ records, ∀ type value,
            event.timeField? = some (type, value) → type.size < 64) ∧
          Timeline entry.timestampBegin records [250, 261, 261] ∧
          (entry.timestampBegin :: records.map Event.timestamp).Pairwise (· ≤ ·) := by
  obtain ⟨htold, htimes, hpackets⟩ := pairwise_timestamp
  have hnext : Follows 0x1000000F0 0x10 8 0x100000110 := ⟨by decide, by decide, by decide⟩
  have hleast := (htold 0x1000000F0 0x10 8 (by decide) (by decide)).1 ⟨_, hnext⟩
  have hover : ∀ time, ¬Follows (2 ^ 64 - 1) 3 8 time := by
    rintro time ⟨hle, hlt, hlow⟩
    have htime : time = 2 ^ 64 - 1 := by omega
    subst htime
    exact absurd hlow (by decide)
  refine ⟨hleast, hover, (htold _ 3 8 (by decide) (by decide)).2.1 hover,
    htimes 8 0 [250, 261, 261] (by decide) (by simp), ?_⟩
  have hrun : (StreamFile.ofInput clockTrace .clamp clockInput).toOption.map (fun f =>
      (f.index.entries[0]?.map (·.timestampBegin),
        ((events (start f).drain.1).filter (·.packet = 0)).map fun event =>
          (event.timestamp,
            event.timeField?.map fun (type, value) => (type.size, Value.pattern value)))) =
      some (some 0, [(250, some (8, 250)), (261, some (8, 5)), (261, some (8, 5))]) := by
    decide +kernel
  obtain ⟨f, h, hrun⟩ := exists_eq_ok hrun
  obtain ⟨hentry, hrecords⟩ := Prod.mk.inj hrun
  obtain ⟨entry, hentry, hbegin⟩ := Option.map_eq_some_iff.1 hentry
  refine ⟨f, entry, h, hentry, ?_⟩
  intro records
  let field (event : Event) : Option (Nat × Nat) :=
    event.timeField?.map fun (type, value) => (type.size, Value.pattern value)
  have hstamps : records.map Event.timestamp = [250, 261, 261] := by
    have hfirst := congrArg (List.map Prod.fst) hrecords
    rwa [List.map_map] at hfirst
  have hfields : records.map field = [some (8, 250), some (8, 5), some (8, 5)] := by
    have hsecond := congrArg (List.map Prod.snd) hrecords
    rwa [List.map_map] at hsecond
  have hnarrow : ∀ event ∈ records, ∀ type value,
      event.timeField? = some (type, value) → type.size < 64 := by
    intro event hevent type value hfield
    have hmem : field event ∈ records.map field := List.mem_map_of_mem hevent
    simp only [hfields, field, hfield, Option.map_some] at hmem
    simp at hmem
    omega
  have hlow : List.Forall₂
      (fun field time => ∀ size low, field = some (size, low) → time ≡ low [MOD 2 ^ size])
      (records.map field) [250, 261, 261] := by
    rw [hfields]
    refine .cons ?_ (.cons ?_ (.cons ?_ .nil)) <;> rintro _ _ ⟨⟩ <;> decide
  have htimeline : Timeline entry.timestampBegin records [250, 261, 261] := by
    refine ⟨(List.forall₂_map_left_iff.1 hlow).imp ?_, by rw [hbegin]; decide, by decide⟩
    intro event time h type value hfield
    exact h _ _ (by simp only [field, hfield, Option.map_some])
  exact ⟨hstamps, hnarrow, htimeline,
    hpackets clockTrace .clamp clockInput f h 0 entry hentry hnarrow ⟨_, htimeline⟩⟩

end StreamReader

end CommonTrace
