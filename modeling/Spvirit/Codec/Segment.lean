import Spvirit.Codec.Error
import Spvirit.Foundation.ByteOrder

/-! Reassembly of segmented PVA messages. -/

namespace Spvirit

def u32Max : Nat := 4294967295

inductive SegmentOutcome where
  | complete (message : List UInt8)
  | pending
  | control (frame : List UInt8)
  deriving DecidableEq, Repr

/-- An 8-byte PVA header and the payload read after it. -/
structure Frame where
  header : Vector UInt8 8
  payload : List UInt8

namespace Frame

def flags (f : Frame) : UInt8 := f.header[2]
def command (f : Frame) : UInt8 := f.header[3]
def isControl (f : Frame) : Bool := f.flags &&& 0x01 != 0
/-- The two segment bits: 0 unsegmented, 1 first, 2 last, 3 in the middle. -/
def segment (f : Frame) : UInt8 := (f.flags &&& 0x30) >>> 4
def bytes (f : Frame) : List UInt8 := f.header.toList ++ f.payload
/-- Same command and same direction bit as the first segment. -/
def Follows (first f : Frame) : Prop := first.command = f.command ∧ first.flags &&& 0x40 = f.flags &&& 0x40

instance (first f : Frame) : Decidable (Follows first f) := inferInstanceAs (Decidable (_ ∧ _))

end Frame

structure Pending where
  header : Vector UInt8 8
  payloads : List (List UInt8)
  total : Nat

structure SegmentReassembler where
  maxBytes : Nat
  pending : Option Pending

/-- Rebuild a standalone message from the first segment's header: the segment
bits go, the length field becomes the total in the header's own byte order. -/
def finish (p : Pending) : List UInt8 :=
  let isBe := p.header[2] &&& 0x80 != 0
  let header := p.header.set 2 (p.header[2] &&& ~~~0x30)
  header.toList.take 4 ++ ByteOrder.toBytes isBe 4 (p.total % 2 ^ 32) ++ p.payloads.flatten

namespace SegmentReassembler

def withMaxBytes (maxBytes : Nat) : SegmentReassembler := ⟨min maxBytes u32Max, none⟩

def pendingBytes (r : SegmentReassembler) : Nat := r.pending.elim 0 Pending.total

def push (r : SegmentReassembler) (f : Frame) : Except DecodeError SegmentOutcome × SegmentReassembler :=
  if f.isControl then (.ok (.control f.bytes), r)
  else if f.segment = 0 then
    match r.pending with
    | some p => (.error (.segmentInterrupted p.header[3] f.command), { r with pending := none })
    | none => (.ok (.complete f.bytes), r)
  else if f.segment = 1 then
    match r.pending with
    | some _ => (.error (.unexpectedSegment f.flags), { r with pending := none })
    | none =>
      if f.payload.length > r.maxBytes then
        (.error (.messageTooLarge f.payload.length r.maxBytes), r)
      else
        (.ok .pending, { r with pending := some ⟨f.header, [f.payload], f.payload.length⟩ })
  else
    match r.pending with
    | none => (.error (.unexpectedSegment f.flags), r)
    | some p =>
      -- `take` has emptied the slot, so every early return below leaves no message pending
      if p.header[3] ≠ f.command ∨ p.header[2] &&& 0x40 ≠ f.flags &&& 0x40 then
        (.error (.segmentCommandMismatch p.header[3] f.command), { r with pending := none })
      else if p.total + f.payload.length > r.maxBytes then
        (.error (.messageTooLarge (p.total + f.payload.length) r.maxBytes), { r with pending := none })
      else
        let p' : Pending := ⟨p.header, p.payloads ++ [f.payload], p.total + f.payload.length⟩
        if f.segment = 2 then (.ok (.complete (finish p')), { r with pending := none })
        else (.ok .pending, { r with pending := some p' })

/-- Push a run of frames, keeping what each push answered. -/
def pushAll (r : SegmentReassembler) : List Frame → List (Except DecodeError SegmentOutcome) × SegmentReassembler
  | [] => ([], r)
  | f :: fs => ((r.push f).1 :: ((r.push f).2.pushAll fs).1, ((r.push f).2.pushAll fs).2)

/-- The state a fresh reassembler reaches on a run of frames. -/
def after (maxBytes : Nat) (history : List Frame) : SegmentReassembler :=
  ((withMaxBytes maxBytes).pushAll history).2

theorem pushAll_append (r : SegmentReassembler) (fs gs : List Frame) :
    r.pushAll (fs ++ gs) = ((r.pushAll fs).1 ++ ((r.pushAll fs).2.pushAll gs).1, ((r.pushAll fs).2.pushAll gs).2) := by
  induction fs generalizing r with
  | nil => rfl
  | cons f fs ih => simp [pushAll, ih]

theorem after_snoc (maxBytes : Nat) (history : List Frame) (f : Frame) :
    after maxBytes (history ++ [f]) = ((after maxBytes history).push f).2 := by
  simp [after, pushAll_append, pushAll]

end SegmentReassembler

end Spvirit
