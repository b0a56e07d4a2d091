import Spvirit.Codec.Segment
import Spvirit.Wire.Packet

/-! Reading of frames from a stream that may stall or be abandoned at any await. -/

namespace Spvirit

def recycleRetainMax : Nat := 64 * 1024

inductive ReadError where
  | eofBeforeFrame
  | eofMidFrame
  | timeout (phase : String)
  | overLimit (declared limit : Nat)
  | segment (e : DecodeError)

/-- The payload length a header declares; a control frame has none. -/
def declaredLength (header : List UInt8) : Nat :=
  match PvaHeader.tryNew header with
  | some h => if h.flags.isControl then 0 else h.payloadLength.toNat
  | none => 0

/-- The state of a partly read frame. `payloadCapacity` is the allocation of the payload buffer. -/
structure FrameBuf where
  header : List UInt8
  headerSize : header.length = 8
  headerFilled : Nat
  headerDone : Bool
  payload : List UInt8
  payloadCapacity : Nat
  payloadFilled : Nat
  payloadNeed : Nat
  maxPayload : Nat

namespace FrameBuf

def withMaxPayloadBytes (max : Nat) : FrameBuf :=
  ⟨List.replicate 8 0, rfl, 0, false, [], 0, 0, 0, max⟩

/-- The finished frame is taken out; its payload buffer goes with it. -/
def taken (fb : FrameBuf) : FrameBuf :=
  { fb with headerFilled := 0, headerDone := false, payload := [], payloadCapacity := 0, payloadFilled := 0, payloadNeed := 0 }

/-- A donated buffer is kept between frames if it is larger than the one held, and not too large. -/
def recycle (fb : FrameBuf) (capacity : Nat) : FrameBuf :=
  if fb.headerFilled ≠ 0 ∨ fb.headerDone ∨ fb.payloadFilled ≠ 0 then fb
  else if min recycleRetainMax (fb.maxPayload + 8) < capacity then fb
  else if capacity ≤ fb.payloadCapacity then fb
  else { fb with payload := [], payloadCapacity := capacity }

end FrameBuf

/-- Bytes written over a buffer from `start` on, as far as it goes. -/
def overwrite (buf : List UInt8) (start : Nat) (bytes : List UInt8) : List UInt8 :=
  (buf.take start ++ bytes ++ buf.drop (start + bytes.length)).take buf.length

theorem overwrite_length (buf bytes : List UInt8) (start : Nat) : (overwrite buf start bytes).length = buf.length := by
  simp only [overwrite, List.length_append, List.length_take, List.length_drop]
  omega

theorem overwrite_take {buf bytes : List UInt8} {start : Nat} (fits : start + bytes.length ≤ buf.length) :
    (overwrite buf start bytes).take (start + bytes.length) = buf.take start ++ bytes := by
  have written : (buf.take start ++ bytes).length = start + bytes.length := by
    rw [List.length_append, List.length_take]
    omega
  rw [overwrite, List.take_take, Nat.min_eq_left fits, ← written, List.take_left]

def frameOf (header : List UInt8) (size : header.length = 8) (payload : List UInt8) : Frame :=
  ⟨⟨header.toArray, by simpa using size⟩, payload⟩

/-- A connection being read: the bytes still to come, the partial frame, the reassembler. -/
structure FrameReader where
  stream : List UInt8
  fb : FrameBuf
  reassembler : SegmentReassembler

/-- What an await can end in. A read takes up to `n + 1` bytes, if the stream has
not ended. Between calls the caller may donate a buffer. -/
inductive ReadEvent where
  | read (n : Nat)
  | elapsed
  | dropped
  | recycle (capacity : Nat)

namespace FrameReader

/-- A completed frame goes through the reassembler; without an outcome the call reads on. -/
def complete (s : FrameReader) : FrameReader × Option (Except ReadError (List UInt8)) :=
  let (outcome, reassembler) := s.reassembler.push (frameOf s.fb.header s.fb.headerSize s.fb.payload)
  let s := { s with fb := s.fb.taken, reassembler := reassembler }
  match outcome with
  | .ok (.complete msg) | .ok (.control msg) => (s, some (.ok msg))
  | .ok .pending => (s, none)
  | .error e => (s, some (.error (.segment e)))

/-- A full header is parsed and the payload buffer sized to it; a frame without payload is complete. -/
def parseHeader (s : FrameReader) : FrameReader × Option (Except ReadError (List UInt8)) :=
  let declared := declaredLength s.fb.header
  if s.fb.maxPayload < declared then (s, some (.error (.overLimit declared s.fb.maxPayload)))
  else
    let fb := { s.fb with
      payloadNeed := declared
      payload := List.replicate declared 0
      payloadCapacity := max s.fb.payloadCapacity declared
      payloadFilled := 0
      headerDone := true }
    if declared = 0 then complete { s with fb := fb } else ({ s with fb := fb }, none)

/-- The bytes a read returns into `space` bytes of buffer. -/
def received (s : FrameReader) (space n : Nat) : List UInt8 := s.stream.take (min (n + 1) space)

/-- A read into the header, and the code from there to the next await or return. -/
def readHeader (s : FrameReader) (n : Nat) : FrameReader × Option (Except ReadError (List UInt8)) :=
  let bytes := s.received (8 - s.fb.headerFilled) n
  let fb : FrameBuf := { s.fb with
    header := overwrite s.fb.header s.fb.headerFilled bytes
    headerSize := (overwrite_length _ _ _).trans s.fb.headerSize
    headerFilled := s.fb.headerFilled + bytes.length }
  let s := { s with fb := fb, stream := s.stream.drop bytes.length }
  if fb.headerFilled < 8 then (s, none) else parseHeader s

/-- A read into the payload, and the code from there to the next await or return. -/
def readPayload (s : FrameReader) (n : Nat) : FrameReader × Option (Except ReadError (List UInt8)) :=
  let bytes := s.received (s.fb.payloadNeed - s.fb.payloadFilled) n
  let fb : FrameBuf := { s.fb with
    payload := overwrite s.fb.payload s.fb.payloadFilled bytes
    payloadFilled := s.fb.payloadFilled + bytes.length }
  let s := { s with fb := fb, stream := s.stream.drop bytes.length }
  if fb.payloadFilled < fb.payloadNeed then (s, none) else complete s

/-- One await of a call, and the code from there to the next await or return. The
deadline is surfaced in both phases; a dropped call has consumed nothing. -/
def step (s : FrameReader) : ReadEvent → FrameReader × Option (Except ReadError (List UInt8))
  | .elapsed => (s, some (.error (.timeout (if s.fb.headerDone then "read payload" else "read header"))))
  | .dropped => (s, none)
  | .recycle capacity => ({ s with fb := s.fb.recycle capacity }, none)
  | .read n =>
    if s.stream.isEmpty then
      (s, some (.error (if ¬ s.fb.headerDone ∧ s.fb.headerFilled = 0 then .eofBeforeFrame else .eofMidFrame)))
    else if ¬ s.fb.headerDone then readHeader s n
    else readPayload s n

/-- What repeated calls return, up to the first error that is no timeout. -/
def run (s : FrameReader) : List ReadEvent → List (Except ReadError (List UInt8))
  | [] => []
  | e :: es =>
    match s.step e with
    | (s', none) => run s' es
    | (s', some (.ok msg)) => .ok msg :: run s' es
    | (s', some (.error (.timeout phase))) => .error (.timeout phase) :: run s' es
    | (_, some (.error err)) => [.error err]

end FrameReader

def ReadError.isTimeout : ReadError → Bool
  | .timeout _ => true
  | _ => false

/-- The messages and the error, without the timeouts. -/
def transcript (results : List (Except ReadError (List UInt8))) : List (Except ReadError (List UInt8)) :=
  results.filter fun r => match r with | .error e => !e.isTimeout | .ok _ => true

/-- What a frame's outcome puts before the outcomes of the frames behind it. -/
def delivered (outcome : Except DecodeError SegmentOutcome) (behind : List (Except ReadError (List UInt8))) :
    List (Except ReadError (List UInt8)) :=
  match outcome with
  | .ok (.complete msg) | .ok (.control msg) => .ok msg :: behind
  | .ok .pending => behind
  | .error e => [.error (.segment e)]

/-- The whole stream split into frames of eight bytes of header and the declared
payload, each pushed through the reassembler, to the first error. -/
def splitStream (maxPayload : Nat) (r : SegmentReassembler) (stream : List UInt8) :
    List (Except ReadError (List UInt8)) :=
  if stream.isEmpty then [.error .eofBeforeFrame]
  else if short : stream.length < 8 then [.error .eofMidFrame]
  else
    let header := stream.take 8
    let declared := declaredLength header
    if maxPayload < declared then [.error (.overLimit declared maxPayload)]
    else if stream.length < 8 + declared then [.error .eofMidFrame]
    else
      let pushed := r.push (frameOf header (by simp [header]; omega) ((stream.drop 8).take declared))
      delivered pushed.1 (splitStream maxPayload pushed.2 (stream.drop (8 + declared)))
termination_by stream.length
decreasing_by
  rw [List.length_drop]
  omega

end Spvirit
