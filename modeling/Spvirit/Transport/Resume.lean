import Spvirit.Transport.FrameBuf

/-! However a stream is cut into reads and calls are dropped, the frames read are those of the whole stream. -/

namespace Spvirit

section

variable {maxPayload : Nat} {r : SegmentReassembler} {header payload rest : List UInt8}

theorem splitStream_header (size : header.length = 8) :
    splitStream maxPayload r (header ++ rest) =
      if maxPayload < declaredLength header then [.error (.overLimit (declaredLength header) maxPayload)]
      else if rest.length < declaredLength header then [.error .eofMidFrame]
      else
        let pushed := r.push (frameOf header size (rest.take (declaredLength header)))
        delivered pushed.1 (splitStream maxPayload pushed.2 (rest.drop (declaredLength header))) := by
  have head : (header ++ rest).take 8 = header := by rw [← size, List.take_left]
  have behind : (header ++ rest).drop 8 = rest := by rw [← size, List.drop_left]
  have long : (header ++ rest).length = 8 + rest.length := by rw [List.length_append, size]
  have nonempty : ¬ (header ++ rest).isEmpty = true := by
    rw [List.isEmpty_iff]
    exact List.ne_nil_of_length_pos (by omega)
  rw [splitStream, if_neg nonempty, dif_neg (by omega)]
  simp only [head, behind, long, Nat.add_lt_add_iff_left, ← List.drop_drop]

theorem splitStream_partHeader (some : header ≠ []) (short : header.length < 8) :
    splitStream maxPayload r header = [.error .eofMidFrame] := by
  rw [splitStream, if_neg (by simpa using some), dif_pos short]

end

namespace FrameReader

variable {s : FrameReader}

/-- The bytes of the frame in progress that have been taken off the stream. -/
def held (s : FrameReader) : List UInt8 :=
  if s.fb.headerDone then s.fb.header ++ s.fb.payload.take s.fb.payloadFilled else s.fb.header.take s.fb.headerFilled

/-- What is still to be returned. -/
def expected (s : FrameReader) : List (Except ReadError (List UInt8)) :=
  splitStream s.fb.maxPayload s.reassembler (s.held ++ s.stream)

/-- The state of a call at an await. -/
structure Awaiting (s : FrameReader) : Prop where
  header : s.fb.headerDone = false → s.fb.headerFilled < 8
  payload : s.fb.headerDone = true → s.fb.payload.length = s.fb.payloadNeed ∧ s.fb.payloadFilled < s.fb.payloadNeed ∧
    s.fb.payloadNeed = declaredLength s.fb.header ∧ s.fb.payloadNeed ≤ s.fb.maxPayload

/-- What is left to return after a step, and that a step does not put bytes back. -/
def Explains (s : FrameReader) (next : FrameReader) : Option (Except ReadError (List UInt8)) → Prop
  | none => next.Awaiting ∧ s.expected = next.expected
  | some (.ok msg) => next.Awaiting ∧ s.expected = .ok msg :: next.expected
  | some (.error (.timeout _)) => next = s
  | some (.error err) => s.expected = [.error err]

theorem awaiting_taken (fb : FrameBuf) (stream : List UInt8) (r : SegmentReassembler) :
    Awaiting ⟨stream, fb.taken, r⟩ :=
  ⟨fun _ => Nat.zero_lt_succ 7, fun done => by cases done⟩

theorem expected_taken (fb : FrameBuf) (stream : List UInt8) (r : SegmentReassembler) :
    expected ⟨stream, fb.taken, r⟩ = splitStream fb.maxPayload r stream := by
  simp [expected, held, FrameBuf.taken]

theorem complete_explains (need : s.fb.payload.length = declaredLength s.fb.header)
    (within : declaredLength s.fb.header ≤ s.fb.maxPayload)
    (whole : s.held = s.fb.header ++ s.fb.payload) : s.Explains s.complete.1 s.complete.2 := by
  have split : s.expected = delivered (s.reassembler.push (frameOf s.fb.header s.fb.headerSize s.fb.payload)).1
      (splitStream s.fb.maxPayload (s.reassembler.push (frameOf s.fb.header s.fb.headerSize s.fb.payload)).2 s.stream) := by
    rw [expected, whole, List.append_assoc, splitStream_header s.fb.headerSize, if_neg (by omega),
      if_neg (by rw [List.length_append]; omega), ← need, List.take_left, List.drop_left]
  unfold complete
  rcases pushed : s.reassembler.push (frameOf s.fb.header s.fb.headerSize s.fb.payload) with ⟨outcome, r'⟩
  rw [pushed] at split
  rcases outcome with e | outcome
  · exact split
  · cases outcome with
    | complete _ | control _ => exact ⟨awaiting_taken _ _ _, by rw [expected_taken]; exact split⟩
    | pending => exact ⟨awaiting_taken _ _ _, by rw [expected_taken]; exact split⟩

/-- Steps that only move bytes from the stream to the buffer. -/
theorem expected_eq {next : FrameReader} (bytes : s.held ++ s.stream = next.held ++ next.stream)
    (limit : s.fb.maxPayload = next.fb.maxPayload) (same : s.reassembler = next.reassembler) :
    s.expected = next.expected := by
  rw [expected, expected, bytes, limit, same]

theorem Explains.of_expected {next final : FrameReader} {o : Option (Except ReadError (List UInt8))}
    (explains : next.Explains final o) (same : s.expected = next.expected)
    (noTimeout : ∀ phase, o ≠ some (.error (.timeout phase))) :
    s.Explains final o := by
  rcases o with _ | (err | msg)
  · exact ⟨explains.1, same.trans explains.2⟩
  · cases err with
    | timeout phase => exact absurd rfl (noTimeout phase)
    | _ => exact same.trans explains
  · exact ⟨explains.1, same.trans explains.2⟩

theorem complete_noTimeout (s : FrameReader) (phase : String) : s.complete.2 ≠ some (.error (.timeout phase)) := by
  unfold complete
  rcases s.reassembler.push (frameOf s.fb.header s.fb.headerSize s.fb.payload) with ⟨outcome, r'⟩
  rcases outcome with e | outcome
  · simp
  · cases outcome <;> simp

theorem parseHeader_explains (filling : s.fb.headerDone = false) (full : s.fb.headerFilled = 8) :
    s.Explains s.parseHeader.1 s.parseHeader.2 ∧ ∀ phase, s.parseHeader.2 ≠ some (.error (.timeout phase)) := by
  have whole : s.held = s.fb.header := by
    rw [held, if_neg (by simp [filling]), full, ← s.fb.headerSize, List.take_length]
  unfold parseHeader
  dsimp only
  split_ifs with above none
  · refine ⟨?_, by simp⟩
    change s.expected = _
    rw [expected, whole]
    rw [splitStream_header s.fb.headerSize, if_pos above]
  · refine ⟨.of_expected (complete_explains ?_ ?_ ?_) (expected_eq ?_ rfl rfl) (complete_noTimeout _), complete_noTimeout _⟩
    · simp
    · exact Nat.le_of_not_lt above
    · simp [held, none]
    · simp [held, filling, full, ← s.fb.headerSize]
  · refine ⟨⟨⟨by simp, fun _ => ⟨by simp, Nat.pos_of_ne_zero none, rfl, Nat.le_of_not_lt above⟩⟩,
      expected_eq ?_ rfl rfl⟩, by simp⟩
    simp [held, filling, full, ← s.fb.headerSize]

/-- A read returns bytes of the stream, some if there are any, and no more than fit. -/
theorem received_spec (space n : Nat) : s.received space n ++ s.stream.drop (s.received space n).length = s.stream ∧
    (s.received space n).length ≤ space ∧ (0 < space → s.stream ≠ [] → 0 < (s.received space n).length) := by
  have length : (s.received space n).length = min (min (n + 1) space) s.stream.length := by
    rw [received, List.length_take]
  refine ⟨?_, by omega, fun room some => ?_⟩
  · rw [length]
    rcases Nat.le_total (min (n + 1) space) s.stream.length with le | le
    · rw [Nat.min_eq_left le, received, List.take_append_drop]
    · rw [Nat.min_eq_right le, received, List.take_of_length_le le, List.drop_length, List.append_nil]
  · have := List.length_pos_iff.mpr some
    omega

section

variable (awaiting : s.Awaiting)

include awaiting

theorem readHeader_explains (filling : s.fb.headerDone = false) (n : Nat) :
    s.Explains (s.readHeader n).1 (s.readHeader n).2 ∧ ∀ phase, (s.readHeader n).2 ≠ some (.error (.timeout phase)) := by
  obtain ⟨moved, fits, _⟩ := @received_spec s (8 - s.fb.headerFilled) n
  unfold readHeader
  dsimp only
  set got := s.received (8 - s.fb.headerFilled) n
  have below := awaiting.header filling
  have size := s.fb.headerSize
  have written := @overwrite_take s.fb.header got s.fb.headerFilled (by omega)
  have bytes : ∀ fb : FrameBuf, fb.headerDone = false →
      fb.header = overwrite s.fb.header s.fb.headerFilled got →
      fb.headerFilled = s.fb.headerFilled + got.length →
      s.held ++ s.stream = held ⟨s.stream.drop got.length, fb, s.reassembler⟩ ++ s.stream.drop got.length := by
    intro fb unfinished header filled
    rw [held, held, if_neg (by simp [filling]), if_neg (by simp [unfinished]), header, filled, written, List.append_assoc,
      moved]
  split_ifs with more
  · exact ⟨⟨⟨fun _ => more, fun done => absurd (filling.symm.trans done) (by simp)⟩,
      expected_eq (bytes _ filling rfl rfl) rfl rfl⟩, by simp⟩
  · change ¬ s.fb.headerFilled + got.length < 8 at more
    obtain ⟨explains, noTimeout⟩ := parseHeader_explains
      (s := { s with
        stream := s.stream.drop got.length
        fb := { s.fb with
          header := overwrite s.fb.header s.fb.headerFilled got
          headerSize := (overwrite_length _ _ _).trans s.fb.headerSize
          headerFilled := s.fb.headerFilled + got.length } })
      filling (by dsimp only; omega)
    exact ⟨.of_expected explains (expected_eq (bytes _ filling rfl rfl) rfl rfl) noTimeout, noTimeout⟩

theorem readPayload_explains (filling : s.fb.headerDone = true) (n : Nat) :
    s.Explains (s.readPayload n).1 (s.readPayload n).2 ∧ ∀ phase, (s.readPayload n).2 ≠ some (.error (.timeout phase)) := by
  obtain ⟨moved, fits, _⟩ := @received_spec s (s.fb.payloadNeed - s.fb.payloadFilled) n
  unfold readPayload
  generalize s.received (s.fb.payloadNeed - s.fb.payloadFilled) n = got at moved fits ⊢
  dsimp only
  obtain ⟨size, below, need, within⟩ := awaiting.payload filling
  have written := @overwrite_take s.fb.payload got s.fb.payloadFilled (by omega)
  have length := overwrite_length s.fb.payload got s.fb.payloadFilled
  have bytes : ∀ fb : FrameBuf, fb.headerDone = true → fb.header = s.fb.header →
      fb.payload = overwrite s.fb.payload s.fb.payloadFilled got →
      fb.payloadFilled = s.fb.payloadFilled + got.length →
      s.held ++ s.stream = held ⟨s.stream.drop got.length, fb, s.reassembler⟩ ++ s.stream.drop got.length := by
    intro fb done header payload filled
    rw [held, held, if_pos filling, if_pos done, header, payload, filled, written, List.append_assoc, List.append_assoc,
      List.append_assoc, moved]
  split_ifs with more
  · exact ⟨⟨⟨fun open' => absurd (filling.symm.trans open') (by simp), fun _ => ⟨length.trans size, more, need, within⟩⟩,
      expected_eq (bytes _ filling rfl rfl rfl) rfl rfl⟩, by simp⟩
  · refine ⟨.of_expected (complete_explains ?_ ?_ ?_) (expected_eq (bytes _ filling rfl rfl rfl) rfl rfl)
      (complete_noTimeout _), complete_noTimeout _⟩
    · exact length.trans (size.trans need)
    · exact need ▸ within
    · have all : s.fb.payloadFilled + got.length = (overwrite s.fb.payload s.fb.payloadFilled got).length := by
        rw [length]
        omega
      simp only [held, filling, if_true]
      rw [all, List.take_length]

theorem eof_explains (ended : s.stream = []) :
    s.expected = [.error (if ¬ s.fb.headerDone ∧ s.fb.headerFilled = 0 then .eofBeforeFrame else .eofMidFrame)] := by
  rw [expected, ended, List.append_nil, held]
  cases phase : s.fb.headerDone with
  | false =>
    have below := awaiting.header phase
    have length : (s.fb.header.take s.fb.headerFilled).length = s.fb.headerFilled := by
      rw [List.length_take, s.fb.headerSize]
      omega
    by_cases idle : s.fb.headerFilled = 0
    · simp [idle, splitStream]
    · simp only [Bool.false_eq_true, if_false, not_false_eq_true, true_and, idle]
      exact splitStream_partHeader (List.ne_nil_of_length_pos (by omega)) (by omega)
  | true =>
    obtain ⟨size, below, need, within⟩ := awaiting.payload phase
    simp only [if_true, not_true_eq_false, false_and, if_false]
    rw [splitStream_header s.fb.headerSize, if_neg (by omega), if_pos (by rw [List.length_take]; omega)]

theorem recycle_explains (capacity : Nat) : s.Explains { s with fb := s.fb.recycle capacity } none := by
  unfold FrameBuf.recycle
  split_ifs with busy large small
  · exact ⟨awaiting, rfl⟩
  · exact ⟨awaiting, rfl⟩
  · exact ⟨awaiting, rfl⟩
  · -- between frames the buffer's bytes do not count
    have idle : s.fb.headerDone = false := by simpa using fun h => busy (Or.inr (Or.inl h))
    refine ⟨⟨fun _ => awaiting.header idle, fun done => absurd (idle.symm.trans done) (by simp)⟩, expected_eq ?_ rfl rfl⟩
    simp [held, idle]

/-- One await: what it returns is the next of what is expected, or a timeout. -/
theorem step_explains (e : ReadEvent) : s.Explains (s.step e).1 (s.step e).2 := by
  cases e with
  | elapsed => exact rfl
  | dropped => exact ⟨awaiting, rfl⟩
  | recycle capacity => exact recycle_explains awaiting capacity
  | read n =>
    rw [step]
    split_ifs with ended idle header
    · have eof := eof_explains awaiting (List.isEmpty_iff.mp ended)
      rw [if_pos idle] at eof
      exact eof
    · have eof := eof_explains awaiting (List.isEmpty_iff.mp ended)
      rw [if_neg idle] at eof
      exact eof
    · exact (readPayload_explains awaiting (by simpa using header) n).1
    · exact (readHeader_explains awaiting (by simpa using header) n).1

end

theorem complete_stream (s : FrameReader) : s.complete.1.stream = s.stream := by
  unfold complete
  rcases s.reassembler.push (frameOf s.fb.header s.fb.headerSize s.fb.payload) with ⟨outcome, r'⟩
  rcases outcome with e | outcome
  · rfl
  · cases outcome <;> rfl

theorem parseHeader_stream (s : FrameReader) : s.parseHeader.1.stream = s.stream := by
  unfold parseHeader
  dsimp only
  split_ifs
  · rfl
  · exact complete_stream _
  · rfl

theorem read_consumes (awaiting : s.Awaiting) (some : s.stream ≠ []) (n : Nat) :
    (s.step (.read n)).1.stream.length < s.stream.length := by
  have long := List.length_pos_iff.mpr some
  have shorter : ∀ space, 0 < space → (s.stream.drop (s.received space n).length).length < s.stream.length := by
    intro space room
    have taken := (@received_spec s space n).2.2 room some
    rw [List.length_drop]
    omega
  rw [step, if_neg (by simpa using some)]
  cases phase : s.fb.headerDone with
  | false =>
    have room := shorter (8 - s.fb.headerFilled) (by have := awaiting.header phase; omega)
    rw [if_pos (by simp), readHeader]
    dsimp only
    split_ifs
    · exact room
    · rw [parseHeader_stream]
      exact room
  | true =>
    have room := shorter (s.fb.payloadNeed - s.fb.payloadFilled) (by have := (awaiting.payload phase).2.1; omega)
    rw [if_neg (by simp), readPayload]
    dsimp only
    split_ifs
    · exact room
    · rw [complete_stream]
      exact room

def isRead : ReadEvent → Bool
  | .read _ => true
  | _ => false

/-- The number of reads the environment grants. -/
def reads (events : List ReadEvent) : Nat := events.countP isRead

theorem step_progress (awaiting : s.Awaiting) (e : ReadEvent) :
    (∃ err, (s.step e).2 = some (.error err) ∧ err.isTimeout = false) ∨
      (s.step e).1.stream.length + (if isRead e then 1 else 0) ≤ s.stream.length := by
  cases e with
  | read n =>
    by_cases ended : s.stream = []
    · left
      rw [step, if_pos (by simp [ended])]
      refine ⟨_, rfl, ?_⟩
      split_ifs <;> rfl
    · exact Or.inr (read_consumes awaiting ended n)
  | elapsed | dropped => exact Or.inr le_rfl
  | recycle capacity => exact Or.inr le_rfl

/-- What is returned is what is expected, up to where the calls have got. -/
theorem run_transcript (awaiting : s.Awaiting) (events : List ReadEvent) :
    transcript (s.run events) = s.expected ∨
      (∃ rest, s.expected = transcript (s.run events) ++ rest) ∧ (∀ e, .error e ∉ transcript (s.run events)) ∧
        reads events ≤ s.stream.length := by
  induction events generalizing s with
  | nil => exact Or.inr ⟨⟨s.expected, rfl⟩, by simp [run, transcript], by simp [reads]⟩
  | cons e es ih =>
    have explains := step_explains awaiting e
    have progress := step_progress awaiting e
    have count : reads (e :: es) = reads es + if isRead e then 1 else 0 := List.countP_cons
    rw [run]
    rcases taken : s.step e with ⟨next, o⟩
    rw [taken] at explains progress
    rcases o with _ | (err | msg)
    · -- the call goes on
      obtain ⟨waits, same⟩ := explains
      rw [same]
      rcases ih waits with all | ⟨rest, noError, few⟩
      · exact Or.inl all
      · refine Or.inr ⟨rest, noError, ?_⟩
        rcases progress with ⟨err, failed, _⟩ | progress
        · cases failed
        · dsimp only at progress few
          omega
    · cases isTimeout : err.isTimeout with
      | true =>
        cases err with
        | timeout phase =>
          have same : next = s := explains
          subst same
          rcases ih awaiting with all | ⟨rest, noError, few⟩
          · exact Or.inl all
          · refine Or.inr ⟨rest, noError, ?_⟩
            rcases progress with ⟨err, failed, hard⟩ | progress
            · cases failed
              cases hard
            · dsimp only at progress
              omega
        | _ => cases isTimeout
      | false =>
        left
        cases err with
        | timeout phase => cases isTimeout
        | _ => exact (show s.expected = _ from explains).symm
    · -- a message
      obtain ⟨waits, same⟩ := explains
      rw [same]
      rcases ih waits with all | ⟨⟨rest, split⟩, noError, few⟩
      · exact Or.inl (congrArg (List.cons _) all)
      · refine Or.inr ⟨⟨rest, congrArg (List.cons _) split⟩, fun err member => ?_, ?_⟩
        · rcases List.mem_cons.mp member with here | later
          · cases here
          · exact noError err later
        · rcases progress with ⟨err, failed, _⟩ | progress
          · cases failed
          · dsimp only at progress few
            omega

/-- A connection of which nothing has been read. -/
def initial (stream : List UInt8) (maxPayload maxBytes : Nat) : FrameReader :=
  ⟨stream, .withMaxPayloadBytes maxPayload, .withMaxBytes maxBytes⟩

/-- Repeated calls return the messages of the whole stream in order and then its
first error, whatever the cuts, timeouts, dropped calls and donated buffers: never
anything else, all of it once they have returned an error, and all of it once they
have been granted more reads than the stream has bytes. -/
theorem frames_read_as_split (stream : List UInt8) (maxPayload maxBytes : Nat) (events : List ReadEvent) :
    transcript ((initial stream maxPayload maxBytes).run events)
        <+: splitStream maxPayload (.withMaxBytes maxBytes) stream ∧
      ((∃ e, .error e ∈ transcript ((initial stream maxPayload maxBytes).run events)) ∨ stream.length < reads events →
        transcript ((initial stream maxPayload maxBytes).run events)
          = splitStream maxPayload (.withMaxBytes maxBytes) stream) := by
  have awaiting : (initial stream maxPayload maxBytes).Awaiting :=
    ⟨fun _ => Nat.zero_lt_succ 7, fun done => by cases done⟩
  have whole : (initial stream maxPayload maxBytes).expected = splitStream maxPayload (.withMaxBytes maxBytes) stream := by
    simp [expected, held, initial, FrameBuf.withMaxPayloadBytes]
  rcases run_transcript awaiting events with all | ⟨⟨rest, split⟩, noError, few⟩
  · rw [all, whole]
    exact ⟨List.prefix_rfl, fun _ => rfl⟩
  · rw [← whole]
    refine ⟨⟨rest, split.symm⟩, ?_⟩
    rintro (⟨e, member⟩ | many)
    · exact absurd member (noError e)
    · exact absurd few (Nat.not_le.mpr many)

end FrameReader

end Spvirit
