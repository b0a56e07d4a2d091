import Spvirit.Codec.Segment

/-! Which sequences of frames are put together to one message. -/

namespace Spvirit

/-- Control frames may stand between the segments of one message; the rest are segments. -/
def segments (body : List Frame) : List Frame := body.filter fun f => !f.isControl

def segmentBytes (first : Frame) (body : List Frame) : Nat :=
  first.payload.length + ((segments body).map fun f => f.payload.length).sum

/-- A first segment followed by middle segments of the same command and
direction, with control frames anywhere between, within the byte cap. -/
structure OpenMessage (cap : Nat) (first : Frame) (body : List Frame) : Prop where
  first_app : first.isControl = false
  first_segment : first.segment = 1
  middle : ∀ f ∈ segments body, f.segment = 3 ∧ first.Follows f
  fits : segmentBytes first body ≤ cap

/-- The last segment that closes an open message within the cap. -/
structure Closes (cap : Nat) (first : Frame) (body : List Frame) (last : Frame) : Prop where
  last_app : last.isControl = false
  last_segment : last.segment = 2
  follows : first.Follows last
  fits : segmentBytes first body + last.payload.length ≤ cap

/-- What the grammar says is held for an open message. -/
def heldFor (first : Frame) (body : List Frame) : Pending :=
  ⟨first.header, first.payload :: (segments body).map Frame.payload, segmentBytes first body⟩

/-- The first header with its segment bits cleared and its length field set to
the total, in that header's byte order, then all the payloads. -/
def reassembled (first : Frame) (body : List Frame) (last : Frame) : List UInt8 :=
  [first.header[0], first.header[1], first.flags &&& ~~~0x30, first.command] ++
    ByteOrder.toBytes (first.flags &&& 0x80 != 0) 4 (segmentBytes first body + last.payload.length) ++
    (first.payload ++ ((segments body).map Frame.payload).flatten ++ last.payload)

/-- The answer to a frame inside an open message. -/
def absorbed (f : Frame) : Except DecodeError SegmentOutcome :=
  if f.isControl then .ok (.control f.bytes) else .ok .pending

theorem segment_cases (f : Frame) : f.segment = 0 ∨ f.segment = 1 ∨ f.segment = 2 ∨ f.segment = 3 := by
  unfold Frame.segment
  generalize f.flags = flags
  obtain ⟨⟨byte⟩⟩ := flags
  revert byte
  decide +kernel

theorem header_start (header : Vector UInt8 8) (flags : UInt8) (b0 : 0 < 8) (b1 : 1 < 8) (b2 : 2 < 8) (b3 : 3 < 8) :
    (header.set 2 flags b2).toList.take 4 = [header.get ⟨0, b0⟩, header.get ⟨1, b1⟩, flags, header.get ⟨3, b3⟩] := by
  refine List.ext_getElem (by simp) fun i inTake inList => ?_
  have bound : i < 4 := by simpa using inList
  obtain rfl | rfl | rfl | rfl : i = 0 ∨ i = 1 ∨ i = 2 ∨ i = 3 := by omega
  all_goals simp [List.getElem_take]
  all_goals rfl

theorem segments_snoc (body : List Frame) (f : Frame) :
    segments (body ++ [f]) = segments body ++ if f.isControl then [] else [f] := by
  cases h : f.isControl <;> simp [segments, List.filter_append, h]

variable {body : List Frame} {f first : Frame}

@[simp] theorem heldFor_header : (heldFor first body).header = first.header := rfl

@[simp] theorem heldFor_total : (heldFor first body).total = segmentBytes first body := rfl

theorem heldFor_control (control : f.isControl = true) :
    heldFor first (body ++ [f]) = heldFor first body := by
  simp [heldFor, segmentBytes, segments_snoc, control]

theorem heldFor_segment (app : f.isControl = false) :
    heldFor first (body ++ [f]) = ⟨first.header, (heldFor first body).payloads ++ [f.payload],
      segmentBytes first body + f.payload.length⟩ := by
  simp [heldFor, segmentBytes, segments_snoc, app, add_assoc]

theorem OpenMessage.of_snoc {cap : Nat}
    (msg : OpenMessage cap first (body ++ [f])) : OpenMessage cap first body := by
  refine ⟨msg.first_app, msg.first_segment, fun g member => msg.middle g ?_, ?_⟩
  · rw [segments_snoc]
    exact List.mem_append_left _ member
  · have total := msg.fits
    simp only [segmentBytes, segments_snoc, List.map_append, List.sum_append] at total ⊢
    omega

theorem OpenMessage.snoc_control {cap : Nat}
    (msg : OpenMessage cap first body) (control : f.isControl = true) : OpenMessage cap first (body ++ [f]) := by
  refine { msg with middle := ?_, fits := ?_ }
  · simpa [segments_snoc, control] using msg.middle
  · simpa [segmentBytes, segments_snoc, control] using msg.fits

theorem OpenMessage.snoc_middle {cap : Nat}
    (msg : OpenMessage cap first body) (app : f.isControl = false) (middle : f.segment = 3)
    (follows : first.Follows f) (fits : segmentBytes first body + f.payload.length ≤ cap) :
    OpenMessage cap first (body ++ [f]) := by
  refine ⟨msg.first_app, msg.first_segment, fun g member => ?_, ?_⟩
  · rw [segments_snoc, app, if_neg (by decide), List.mem_append, List.mem_singleton] at member
    rcases member with old | rfl
    · exact msg.middle g old
    · exact ⟨middle, follows⟩
  · simpa [segmentBytes, segments_snoc, app, add_assoc] using fits

namespace SegmentReassembler

/-- The frame is an error, after which nothing is held. -/
def Rejects (r : SegmentReassembler) (f : Frame) : Prop := ∃ e, r.push f = (.error e, { r with pending := none })

variable {r : SegmentReassembler} {f first last : Frame} {body : List Frame} {p : Pending} {maxBytes : Nat}

theorem push_control (control : f.isControl = true) : r.push f = (.ok (.control f.bytes), r) := by
  simp [push, control]

section

variable (app : f.isControl = false)
include app

theorem push_unsegmented (seg : f.segment = 0) (idle : r.pending = none) :
    r.push f = (.ok (.complete f.bytes), r) := by
  simp [push, app, seg, idle]

theorem push_interrupts (seg : f.segment = 0 ∨ f.segment = 1) (held : r.pending = some p) :
    r.Rejects f := by
  rcases seg with seg | seg <;> simp [Rejects, push, app, seg, held]

theorem push_first (seg : f.segment = 1) (idle : r.pending = none)
    (fits : f.payload.length ≤ r.maxBytes) : r.push f = (.ok .pending, { r with pending := some (heldFor f []) }) := by
  simp [push, app, seg, idle, Nat.not_lt.mpr fits, heldFor, segmentBytes, segments]

theorem push_first_too_large (seg : f.segment = 1) (idle : r.pending = none)
    (large : r.maxBytes < f.payload.length) : r.Rejects f := by
  have same : r = { r with pending := none } := by rw [← idle]
  simp [Rejects, push, app, seg, idle, large, ← same]

theorem push_stray (seg : f.segment = 2 ∨ f.segment = 3) (idle : r.pending = none) :
    r.Rejects f := by
  have same : r = { r with pending := none } := by rw [← idle]
  rcases seg with seg | seg <;> simp [Rejects, push, app, seg, idle, ← same]

theorem push_mismatch (seg : f.segment = 2 ∨ f.segment = 3)
    (held : r.pending = some (heldFor first body))
    (bad : ¬ first.Follows f ∨ r.maxBytes < segmentBytes first body + f.payload.length) :
    r.Rejects f := by
  by_cases other : first.command ≠ f.command ∨ first.flags &&& 0x40 ≠ f.flags &&& 0x40
  · simp only [Frame.command, Frame.flags] at other
    rcases seg with seg | seg <;> simp [Rejects, push, app, seg, held, Frame.command, Frame.flags, other]
  · have large : r.maxBytes < segmentBytes first body + f.payload.length := by
      rcases bad with bad | bad
      · simp only [Frame.Follows] at bad
        tauto
      · exact bad
    simp only [Frame.command, Frame.flags] at other
    rcases seg with seg | seg <;>
      simp [Rejects, push, app, seg, held, Frame.command, Frame.flags, other, large]

theorem push_middle (seg : f.segment = 3) (held : r.pending = some (heldFor first body))
    (follows : first.Follows f) (fits : segmentBytes first body + f.payload.length ≤ r.maxBytes) :
    r.push f = (.ok .pending, { r with pending := some (heldFor first (body ++ [f])) }) := by
  have same := follows
  simp only [Frame.Follows, Frame.command, Frame.flags] at same
  simp [push, app, seg, held, Frame.command, Frame.flags, same, Nat.not_lt.mpr fits, heldFor_segment app]

end

theorem push_last (held : r.pending = some (heldFor first body)) (close : Closes r.maxBytes first body last)
    (wire : r.maxBytes ≤ u32Max) :
    r.push last = (.ok (.complete (reassembled first body last)), { r with pending := none }) := by
  have same := close.follows
  simp only [Frame.Follows, Frame.command, Frame.flags] at same
  have small : segmentBytes first body + last.payload.length < 2 ^ 32 := by
    have := close.fits
    simp only [u32Max] at wire
    omega
  have message : finish ⟨first.header, (heldFor first body).payloads ++ [last.payload],
      segmentBytes first body + last.payload.length⟩ = reassembled first body last := by
    have start : (first.header.set 2 (first.header[2] &&& ~~~0x30)).toList.take 4
        = [first.header[0], first.header[1], first.header[2] &&& ~~~0x30, first.header[3]] :=
      header_start _ _ (by decide) (by decide) (by decide) (by decide)
    simp only [finish, reassembled, Nat.mod_eq_of_lt small, start, heldFor, Frame.flags, Frame.command]
    simp
  simp [push, close.last_app, close.last_segment, held, Frame.command, Frame.flags, same,
    Nat.not_lt.mpr close.fits, message]

theorem push_maxBytes : (r.push f).2.maxBytes = r.maxBytes := by
  unfold push
  cases f.isControl
  · rcases segment_cases f with seg | seg | seg | seg <;> cases r.pending <;> simp only [seg] <;> simp <;>
      split_ifs <;> rfl
  · rfl

theorem after_maxBytes (history : List Frame) : (after maxBytes history).maxBytes = min maxBytes u32Max := by
  induction history using List.reverseRecOn with
  | nil => rfl
  | append_singleton history f ih => rw [after_snoc, push_maxBytes, ih]

/-- A whole open message is absorbed frame by frame; this is the run the
middle segments and the control frames between them make. -/
theorem pushAll_open (idle : r.pending = none) (msg : OpenMessage r.maxBytes first body) :
    r.pushAll (first :: body) =
      (.ok .pending :: body.map absorbed, { r with pending := some (heldFor first body) }) := by
  induction body using List.reverseRecOn with
  | nil =>
    have fits : first.payload.length ≤ r.maxBytes := by
      simpa [segmentBytes, segments] using msg.fits
    simp [pushAll, push_first msg.first_app msg.first_segment idle fits]
  | append_singleton body f ih =>
    rw [← List.cons_append, pushAll_append, ih msg.of_snoc]
    cases control : f.isControl with
    | true => simp [pushAll, push_control control, absorbed, control, heldFor_control control]
    | false =>
      have member : f ∈ segments (body ++ [f]) := by simp [segments_snoc, control]
      obtain ⟨middle, follows⟩ := msg.middle f member
      have fits : segmentBytes first body + f.payload.length ≤ r.maxBytes := by
        simpa [segmentBytes, segments_snoc, control, add_assoc] using msg.fits
      have step := push_middle (r := { r with pending := some (heldFor first body) }) control middle rfl follows fits
      simp [pushAll, step, absorbed, control]

theorem pushAll_message (idle : r.pending = none) (wire : r.maxBytes ≤ u32Max)
    (msg : OpenMessage r.maxBytes first body) (close : Closes r.maxBytes first body last) :
    r.pushAll (first :: body ++ [last]) =
      (.ok .pending :: body.map absorbed ++ [.ok (.complete (reassembled first body last))],
        { r with pending := none }) := by
  have step := push_last (r := { r with pending := some (heldFor first body) }) rfl close wire
  rw [pushAll_append, pushAll_open idle msg]
  simp [pushAll, step]

/-- The open message a run of frames ends in. -/
def Ends (maxBytes : Nat) (history : List Frame) (first : Frame) (body : List Frame) : Prop :=
  ∃ before, history = before ++ first :: body ∧ (after maxBytes before).pending = none ∧
    OpenMessage (min maxBytes u32Max) first body

variable {history : List Frame}

theorem Ends.pending (ends : Ends maxBytes history first body) :
    (after maxBytes history).pending = some (heldFor first body) := by
  obtain ⟨before, rfl, idle, msg⟩ := ends
  rw [← after_maxBytes before] at msg
  have run := pushAll_open idle msg
  simp only [after] at run ⊢
  rw [pushAll_append, run]

theorem Ends.snoc (ends : Ends maxBytes history first body)
    (grows : OpenMessage (min maxBytes u32Max) first (body ++ [f])) : Ends maxBytes (history ++ [f]) first (body ++ [f]) := by
  obtain ⟨before, rfl, idle, _⟩ := ends
  exact ⟨before, by simp, idle, grows⟩

/-- The frames the grammar allows next after a run of frames. -/
inductive Admits (maxBytes : Nat) (history : List Frame) (f : Frame) : Prop where
  | control (control : f.isControl = true)
  | whole (app : f.isControl = false) (seg : f.segment = 0) (idle : (after maxBytes history).pending = none)
  | opens (msg : OpenMessage (min maxBytes u32Max) f []) (idle : (after maxBytes history).pending = none)
  | grows (first : Frame) (body : List Frame) (ends : Ends maxBytes history first body)
      (app : f.isControl = false) (msg : OpenMessage (min maxBytes u32Max) first (body ++ [f]))
  | closes (first : Frame) (body : List Frame) (ends : Ends maxBytes history first body)
      (close : Closes (min maxBytes u32Max) first body f)

theorem fresh_eq (maxBytes : Nat) (history : List Frame) :
    { after maxBytes history with pending := none } = withMaxBytes maxBytes := by
  simp [withMaxBytes, after_maxBytes]

/-- The answer and the message held after a frame the grammar allows. -/
theorem push_admitted (admits : Admits maxBytes history f) :
    (∃ outcome, ((after maxBytes history).push f).1 = .ok outcome) ∧
      ((after maxBytes history).pending = none ∨ (∃ first body, Ends maxBytes history first body) →
        (after maxBytes (history ++ [f])).pending = none ∨
          ∃ first body, Ends maxBytes (history ++ [f]) first body) := by
  rw [after_snoc]
  cases admits with
  | control control =>
    rw [push_control control]
    refine ⟨⟨_, rfl⟩, Or.imp id ?_⟩
    rintro ⟨first, body, ends⟩
    obtain ⟨_, _, _, msg⟩ := id ends
    exact ⟨first, body ++ [f], ends.snoc (msg.snoc_control control)⟩
  | whole app seg idle =>
    rw [push_unsegmented app seg idle]
    exact ⟨⟨_, rfl⟩, fun _ => Or.inl idle⟩
  | opens msg idle =>
    have fits : f.payload.length ≤ (after maxBytes history).maxBytes := by
      simpa [segmentBytes, segments, after_maxBytes] using msg.fits
    rw [push_first msg.first_app msg.first_segment idle fits]
    exact ⟨⟨_, rfl⟩, fun _ => Or.inr ⟨f, [], history, rfl, idle, msg⟩⟩
  | grows first body ends app msg =>
    have member : f ∈ segments (body ++ [f]) := by simp [segments_snoc, app]
    obtain ⟨middle, follows⟩ := msg.middle f member
    have fits : segmentBytes first body + f.payload.length ≤ (after maxBytes history).maxBytes := by
      simpa [segmentBytes, segments_snoc, app, add_assoc, after_maxBytes] using msg.fits
    rw [push_middle app middle ends.pending follows fits]
    exact ⟨⟨_, rfl⟩, fun _ => Or.inr ⟨first, body ++ [f], ends.snoc msg⟩⟩
  | closes first body ends close =>
    rw [← after_maxBytes history] at close
    rw [push_last ends.pending close (by rw [after_maxBytes]; omega)]
    exact ⟨⟨_, rfl⟩, fun _ => Or.inl rfl⟩

/-- With the held message known, a frame is allowed by the grammar or the
reassembler rejects it and is fresh again. -/
theorem admits_or_rejected (f : Frame)
    (known : (after maxBytes history).pending = none ∨ ∃ first body, Ends maxBytes history first body) :
    Admits maxBytes history f ∨ ∃ e, (after maxBytes history).push f = (.error e, withMaxBytes maxBytes) := by
  rw [← fresh_eq maxBytes history]
  cases control : f.isControl with
  | true => exact Or.inl (.control control)
  | false =>
    rcases known with idle | ⟨first, body, ends⟩
    · rcases segment_cases f with seg | seg | seg | seg
      · exact Or.inl (.whole control seg idle)
      · by_cases fits : f.payload.length ≤ min maxBytes u32Max
        · exact Or.inl (.opens ⟨control, seg, by simp [segments], by simpa [segmentBytes, segments] using fits⟩ idle)
        · exact Or.inr (push_first_too_large control seg idle (by rw [after_maxBytes]; omega))
      · exact Or.inr (push_stray control (Or.inl seg) idle)
      · exact Or.inr (push_stray control (Or.inr seg) idle)
    · obtain ⟨_, _, _, msg⟩ := id ends
      have mismatch : ∀ seg, ¬ (first.Follows f ∧ segmentBytes first body + f.payload.length ≤ min maxBytes u32Max) → _ :=
        fun seg bad => push_mismatch control seg ends.pending (by rwa [after_maxBytes, ← Nat.not_le, ← not_and_or])
      rcases segment_cases f with seg | seg | seg | seg
      · exact Or.inr (push_interrupts control (Or.inl seg) ends.pending)
      · exact Or.inr (push_interrupts control (Or.inr seg) ends.pending)
      all_goals by_cases good : first.Follows f ∧ segmentBytes first body + f.payload.length ≤ min maxBytes u32Max
      · exact Or.inl (.closes first body ends ⟨control, seg, good.1, good.2⟩)
      · exact Or.inr (mismatch (Or.inl seg) good)
      · exact Or.inl (.grows first body ends control (msg.snoc_middle control seg good.1 good.2))
      · exact Or.inr (mismatch (Or.inr seg) good)

theorem idle_or_ends (maxBytes : Nat) (history : List Frame) :
    (after maxBytes history).pending = none ∨ ∃ first body, Ends maxBytes history first body := by
  induction history using List.reverseRecOn with
  | nil => exact Or.inl rfl
  | append_singleton history f ih =>
    rcases admits_or_rejected f ih with admits | ⟨e, rejected⟩
    · exact (push_admitted admits).2 ih
    · exact Or.inl (by rw [after_snoc, rejected]; rfl)

theorem pending_iff_ends (maxBytes : Nat) (history : List Frame) (p : Pending) :
    (after maxBytes history).pending = some p ↔
      ∃ first body, Ends maxBytes history first body ∧ p = heldFor first body := by
  constructor
  · intro held
    rcases idle_or_ends maxBytes history with idle | ⟨first, body, ends⟩
    · rw [held] at idle
      contradiction
    · rw [ends.pending] at held
      exact ⟨first, body, ends, (Option.some.inj held).symm⟩
  · rintro ⟨first, body, ends, rfl⟩
    exact ends.pending

theorem pendingBytes_le (maxBytes : Nat) (history : List Frame) :
    (after maxBytes history).pendingBytes ≤ min maxBytes u32Max := by
  rcases held : (after maxBytes history).pending with _ | p
  · simp [pendingBytes, held]
  · obtain ⟨first, body, ⟨_, _, _, msg⟩, rfl⟩ := (pending_iff_ends maxBytes history p).mp held
    simpa [pendingBytes, held, heldFor] using msg.fits

theorem admits_iff_ok (maxBytes : Nat) (history : List Frame) (f : Frame) :
    Admits maxBytes history f ↔ ∃ outcome, ((after maxBytes history).push f).1 = .ok outcome := by
  refine ⟨fun admits => (push_admitted admits).1, ?_⟩
  rintro ⟨outcome, accepted⟩
  rcases admits_or_rejected f (idle_or_ends maxBytes history) with admits | ⟨e, rejected⟩
  · exact admits
  · rw [rejected] at accepted
    contradiction

/-- Segmentation is exactly the PVA segment grammar, at every point of every
run of a fresh reassembler: what is held is the open message the run ends in
and never more than the cap; control frames pass through; an unsegmented frame
is returned whole iff nothing is held; a message from its first to its last
segment yields one complete message; every frame the grammar does not allow is
an error after which the reassembler is fresh. -/
theorem push_implements_grammar (maxBytes : Nat) (history : List Frame) :
    (after maxBytes history).pendingBytes ≤ min maxBytes u32Max ∧
    (∀ p, (after maxBytes history).pending = some p ↔
      ∃ first body, Ends maxBytes history first body ∧ p = heldFor first body) ∧
    (∀ f, f.isControl = true →
      (after maxBytes history).push f = (.ok (.control f.bytes), after maxBytes history)) ∧
    (∀ f, f.isControl = false → f.segment = 0 →
      ((after maxBytes history).push f = (.ok (.complete f.bytes), after maxBytes history) ↔
        (after maxBytes history).pending = none)) ∧
    (∀ first body last, (after maxBytes history).pending = none →
      OpenMessage (min maxBytes u32Max) first body → Closes (min maxBytes u32Max) first body last →
      (after maxBytes history).pushAll (first :: body ++ [last]) =
        (.ok .pending :: body.map absorbed ++ [.ok (.complete (reassembled first body last))],
          withMaxBytes maxBytes)) ∧
    (∀ f, Admits maxBytes history f ↔ ∃ outcome, ((after maxBytes history).push f).1 = .ok outcome) ∧
    (∀ f, ¬ Admits maxBytes history f →
      ∃ e, (after maxBytes history).push f = (.error e, withMaxBytes maxBytes)) := by
  refine ⟨pendingBytes_le maxBytes history, pending_iff_ends maxBytes history, fun f => push_control, ?_, ?_,
    admits_iff_ok maxBytes history, fun f refused => ?_⟩
  · intro f app seg
    refine ⟨fun returned => ?_, push_unsegmented app seg⟩
    rcases held : (after maxBytes history).pending with _ | p
    · rfl
    · obtain ⟨e, rejected⟩ := push_interrupts app (Or.inl seg) held
      rw [rejected] at returned
      simp at returned
  · intro first body last idle msg close
    rw [← after_maxBytes history] at msg close
    rw [pushAll_message idle (by rw [after_maxBytes]; omega) msg close, fresh_eq]
  · exact (admits_or_rejected f (idle_or_ends maxBytes history)).resolve_left refused

end SegmentReassembler

end Spvirit
