import CommonTrace.Proofs.Stream.Repositioning
import CommonTrace.Proofs.Trace.Moving

/-!
# Moving to a time forgets the past

What can be seen of a trace reader is determined by its queue and, for each of its streams, by
the current event and by what is left to be read. Moving the reader to a time makes all of this
anew from the files alone. So whatever was done with it before, which streams had ended or
failed or left the merge, it goes on like any other reader of the same files that is moved to
that time.
-/
namespace CommonTrace

namespace StreamReader

variable {f : StreamFile} {r r' : StreamReader}

/-- A reader of a file that was opened, however it has been moved since. -/
def Opened (r : StreamReader) : Prop :=
  ∃ metadata policy input, StreamFile.ofInput metadata policy input = .ok r.file ∧
    Reachable r.file r

/-- A reader of a file the packets of which have been indexed, with something left to be read or
nothing. -/
def Reads (f : StreamFile) (r : StreamReader) : Prop := f.Indexed ∧ ∃ rest, Pending f r rest

theorem Opened.reads (h : r.Opened) : Reads r.file r := by
  obtain ⟨metadata, policy, input, hopen, hreachable⟩ := h
  obtain ⟨hf, -⟩ := StreamFile.ofInput_eq_ok hopen
  obtain ⟨rest, hpending, -⟩ := hreachable.steady hf
  exact ⟨hf, rest, hpending⟩

theorem Reads.advance (h : Reads f r) : Reads f r.advance.2 := by
  obtain ⟨hf, rest, hpending⟩ := h
  exact ⟨hf, rest.tail, (advance_eq_firstOf hf hpending).2⟩

theorem Reads.seek (h : Reads f r) (timestamp : Nat) : Reads f (r.seek timestamp).2 := by
  obtain ⟨hf, rest, hpending⟩ := h
  exact ⟨hf, _, (seek_eq_firstOf hf hpending.ready timestamp).2⟩

/-- Two readers of one file that are at the same event and have the same left to be read. -/
structure Alike (r r' : StreamReader) : Prop where
  current : r.current = r'.current
  left : ∃ f rest, f.Indexed ∧ Pending f r rest ∧ Pending f r' rest

theorem Alike.advance (h : r.Alike r') :
    r.advance.1 = r'.advance.1 ∧ r.advance.2.Alike r'.advance.2 := by
  obtain ⟨-, f, rest, hf, hr, hr'⟩ := h
  obtain ⟨hout, hleft⟩ := advance_eq_firstOf hf hr
  obtain ⟨hout', hleft'⟩ := advance_eq_firstOf hf hr'
  have hsame := hout.trans hout'.symm
  refine ⟨hsame, ?_, f, rest.tail, hf, hleft, hleft'⟩
  rw [current_advance, current_advance, hsame]

theorem Alike.pass (h : r.Alike r') : r.pass.1 = r'.pass.1 ∧ r.pass.2.Alike r'.pass.2 := by
  have hfirst := h.advance
  rcases hstep : r.advance with ⟨out, s⟩
  rcases hstep' : r'.advance with ⟨out', s'⟩
  rw [hstep, hstep'] at hfirst
  obtain ⟨rfl, hs⟩ : out = out' ∧ s.Alike s' := hfirst
  cases out with
  | error e =>
    rw [pass_of_error hstep, pass_of_error hstep']
    exact hs.advance
  | ok event? =>
    rw [pass_of_ok hstep, pass_of_ok hstep']
    exact ⟨rfl, hs⟩

/-- Readers of one file are alike once they have been moved to the same time. -/
theorem Reads.alike_seek (h : Reads f r) (h' : Reads f r') (timestamp : Nat) :
    (r.seek timestamp).1 = (r'.seek timestamp).1 ∧
      (r.seek timestamp).2.Alike (r'.seek timestamp).2 := by
  obtain ⟨hf, rest, hr⟩ := h
  obtain ⟨-, rest', hr'⟩ := h'
  obtain ⟨hout, hleft⟩ := seek_eq_firstOf hf hr.ready timestamp
  obtain ⟨hout', hleft'⟩ := seek_eq_firstOf hf hr'.ready timestamp
  have hsame := hout.trans hout'.symm
  refine ⟨hsame, ?_, f, _, hf, hleft, hleft'⟩
  rw [current_seek, current_seek, hsame]

theorem Alike.seek (h : r.Alike r') (timestamp : Nat) :
    (r.seek timestamp).1 = (r'.seek timestamp).1 ∧
      (r.seek timestamp).2.Alike (r'.seek timestamp).2 := by
  obtain ⟨-, f, rest, hf, hr, hr'⟩ := h
  exact Reads.alike_seek ⟨hf, rest, hr⟩ ⟨hf, rest, hr'⟩ timestamp

end StreamReader

namespace TraceReader

variable {t t' : TraceReader} {files : List StreamFile} {streams others : List StreamReader}

/-- What can be seen of a reader: whether there is an event to come, the current event with the
place of its stream, and what moving past it answers. -/
def seen (t : TraceReader) : Bool × Option (Nat × Event) × Except Error Bool :=
  (t.hasMore, t.current?.map fun p => (p.place, p.event), t.advance.1)

/-- Two readers with the same queue, the streams of which are alike. -/
structure Alike (t t' : TraceReader) : Prop where
  queue : t.queue = t'.queue
  streams : List.Forall₂ StreamReader.Alike t.streams t'.streams

namespace Alike

/-- Streams at the same place are alike, if there are any. -/
theorem getElem? (h : t.Alike t') (place : Nat) :
    t.streams[place]? = none ∧ t'.streams[place]? = none ∨
      ∃ r r', t.streams[place]? = some r ∧ t'.streams[place]? = some r' ∧ r.Alike r' := by
  cases hr' : t'.streams[place]? with
  | none =>
    rw [List.getElem?_eq_none_iff, ← h.streams.length_eq, ← List.getElem?_eq_none_iff] at hr'
    exact .inl ⟨hr', rfl⟩
  | some r' =>
    obtain ⟨r, hr, halike⟩ := exists_getElem?_of_forall₂ h.streams hr'
    exact .inr ⟨r, r', hr, rfl, halike⟩

/-- Readers that are alike answer alike when they are moved, and are alike then. -/
theorem advance (h : t.Alike t') : t.advance.1 = t'.advance.1 ∧ t.advance.2.Alike t'.advance.2 := by
  cases hpop : t.queue.pop? with
  | none =>
    rw [advance_of_empty hpop, advance_of_empty (h.queue ▸ hpop)]
    exact ⟨rfl, h⟩
  | some popped =>
    obtain ⟨turn, rest⟩ := popped
    have hpop' : t'.queue.pop? = some (turn, rest) := h.queue ▸ hpop
    rcases h.getElem? turn.place with ⟨hnone, hnone'⟩ | ⟨r, r', hr, hr', halike⟩
    · rw [advance_of_lost hpop hnone, advance_of_lost hpop' hnone']
      exact ⟨rfl, rfl, h.streams⟩
    · rw [advance_of_pop hpop hr, advance_of_pop hpop' hr']
      obtain ⟨hout, hpass⟩ := halike.pass
      rw [halike.advance.1, hout]
      exact ⟨rfl, rfl, forall₂_set h.streams hpass turn.place⟩

/-- Readers are alike once they are queued anew with streams moved alike. -/
theorem restart {move : StreamReader → StreamReader.Outcome × StreamReader}
    (h : List.Forall₂ (fun r r' => (move r).1 = (move r').1 ∧ (move r).2.Alike (move r').2)
      t.streams t'.streams) : (t.restart move).Alike (t'.restart move) := by
  unfold TraceReader.restart
  refine ⟨?_, ?_⟩
  · have houts : (t.streams.map move).map (·.1) = (t'.streams.map move).map (·.1) := by
      rw [← List.forall₂_eq_eq_eq]
      simp only [List.forall₂_map_left_iff, List.forall₂_map_right_iff]
      exact h.imp fun _ _ hmove => hmove.1
    exact congrArg (MergeQueue.requeueAll {} 0) houts
  · simp only [List.forall₂_map_left_iff, List.forall₂_map_right_iff]
    exact h.imp fun _ _ hmove => hmove.2

theorem moved (h : t.Alike t') (move : Move) : (t.moved move).Alike (t'.moved move) := by
  cases move with
  | advance => exact h.advance.2
  | seek timestamp => exact restart (h.streams.imp fun _ _ halike => halike.seek timestamp)

theorem after (h : t.Alike t') (moves : List Move) : (t.after moves).Alike (t'.after moves) := by
  induction moves generalizing t t' with
  | nil => exact h
  | cons move moves ih => exact ih (h.moved move)

theorem seen_eq (h : t.Alike t') : t.seen = t'.seen := by
  have hcurrent : t.current?.map (fun p => (p.place, p.event)) =
      t'.current?.map fun p => (p.place, p.event) := by
    unfold current?
    rw [← h.queue]
    cases t.queue.peek? with
    | none => rfl
    | some turn =>
      rcases h.getElem? turn.place with ⟨hnone, hnone'⟩ | ⟨r, r', hr, hr', halike⟩
      · simp [hnone, hnone']
      · cases hevent : r.current <;> simp [hr, hr', ← halike.current, hevent]
  rw [seen, seen, hcurrent, h.advance.1, hasMore, hasMore, h.queue]

end Alike

/-- Readers of the same files are alike once they have been moved to the same time. -/
theorem alike_seek (h : List.Forall₂ StreamReader.Reads files t.streams)
    (h' : List.Forall₂ StreamReader.Reads files t'.streams) (timestamp : Nat) :
    (t.seek timestamp).Alike (t'.seek timestamp) := by
  refine Alike.restart ?_
  generalize t.streams = streams at h
  generalize t'.streams = streams' at h'
  induction h generalizing streams' with
  | nil =>
    cases h'
    exact .nil
  | cons hhead htail ih =>
    cases h' with
    | cons hhead' htail' => exact .cons (hhead.alike_seek hhead' timestamp) (ih _ htail')

/-- The streams of a reader go on reading the files that they were opened on. -/
theorem forall₂_reads_after (hopened : ∀ r ∈ streams, r.Opened) (moves : List Move) :
    List.Forall₂ StreamReader.Reads (streams.map (·.file))
      ((restart { streams } StreamReader.advance).after moves).streams := by
  refine forall₂_after (fun _ _ h => h.advance) (fun _ _ timestamp h => h.seek timestamp) ?_ moves
  refine forall₂_restart (fun _ _ h => h.advance) ?_
  rw [List.forall₂_map_left_iff, List.forall₂_same]
  exact fun r hr => (hopened r hr).reads

/-- However a reader of some opened streams has been moved, once it is moved to a time nothing can
be told from a reader of the same files that was just made, from any streams of these files, and
moved to that time: neither at once nor after any further moves. -/
theorem seek_forgets (hstreams : streams ≠ []) (hopened : ∀ r ∈ streams, r.Opened)
    (hothers : ∀ r ∈ others, r.Opened) (hfiles : others.map (·.file) = streams.map (·.file)) :
    ∃ t fresh, ofStreams streams = .ok t ∧ ofStreams others = .ok fresh ∧
      ∀ (history : List Move) (timestamp : Nat) (moves : List Move),
        (((t.after history).seek timestamp).after moves).seen =
          ((fresh.seek timestamp).after moves).seen := by
  have hne : others ≠ [] := by
    rintro rfl
    exact hstreams (List.map_eq_nil_iff.1 hfiles.symm)
  refine ⟨_, _, ofStreams_eq_ok hstreams, ofStreams_eq_ok hne, fun history timestamp moves => ?_⟩
  have hfresh := forall₂_reads_after hothers []
  rw [hfiles] at hfresh
  exact ((alike_seek (forall₂_reads_after hopened history) hfresh timestamp).after moves).seen_eq

/-- One of the streams has been moved before. Both have one event, behind which the file fails. -/
theorem seek_forgets_content :
    ∃ f t fresh,
      StreamFile.ofInput StreamReader.contentTrace .clamp StreamReader.contentInput = .ok f ∧
      (∀ r ∈ [(StreamReader.start f).advance.2, StreamReader.start f], r.Opened) ∧
      ofStreams [(StreamReader.start f).advance.2, StreamReader.start f] = .ok t ∧
      ofStreams [StreamReader.start f, StreamReader.start f] = .ok fresh ∧
      (∀ (history : List Move) (timestamp : Nat) (moves : List Move),
        (((t.after history).seek timestamp).after moves).seen =
          ((fresh.seek timestamp).after moves).seen) ∧
      ∀ history : List Move,
        [[], [.advance], [.advance, .advance]].map (fun moves =>
          (((t.after history).seek 0).after moves).seen.2.1.map fun (place, event) =>
            (place, event.number? "value")) = [some (0, some 1), some (1, some 1), none] := by
  have hrun : (StreamFile.ofInput StreamReader.contentTrace .clamp
      StreamReader.contentInput).toOption.map (fun f =>
        (ofStreams [StreamReader.start f, StreamReader.start f]).toOption.map fun fresh =>
          [[], [.advance], [.advance, .advance]].map fun moves =>
            ((fresh.seek 0).after moves).seen.2.1.map fun (place, event) =>
              (place, event.number? "value")) =
        some (some [some (0, some 1), some (1, some 1), none]) := by
    decide +kernel
  obtain ⟨f, h, hanswers⟩ := exists_eq_ok hrun
  have hmoved : StreamReader.Reachable f (StreamReader.start f).advance.2 := .advance .start
  have hfile : (StreamReader.start f).advance.2.file = f :=
    (hmoved.steady (StreamFile.ofInput_eq_ok h).1).ready.file
  have hstart : (StreamReader.start f).Opened := ⟨_, _, _, h, .start⟩
  have hadvanced : (StreamReader.start f).advance.2.Opened :=
    ⟨_, _, _, by rw [hfile]; exact h, by rw [hfile]; exact hmoved⟩
  have hboth : ∀ r ∈ [(StreamReader.start f).advance.2, StreamReader.start f], r.Opened := by
    simp [hstart, hadvanced]
  have hothers : ∀ r ∈ [StreamReader.start f, StreamReader.start f], r.Opened := by
    simp [hstart]
  have hfiles : [StreamReader.start f, StreamReader.start f].map (·.file) =
      [(StreamReader.start f).advance.2, StreamReader.start f].map (·.file) := by
    simp only [List.map_cons, hfile]
    rfl
  obtain ⟨t, fresh, ht, hfresh, hsame⟩ :=
    seek_forgets (List.cons_ne_nil _ _) hboth hothers hfiles
  refine ⟨f, t, fresh, h, hboth, ht, hfresh, hsame, fun history => ?_⟩
  rw [hfresh] at hanswers
  simp only [hsame history 0]
  exact Option.some.inj hanswers

end TraceReader

end CommonTrace
