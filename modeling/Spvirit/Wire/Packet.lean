import Spvirit.Codec.Bitset

/-! Packets taken apart: header, operation payload, body. -/

namespace Spvirit

open ByteOrder

structure PvaControlFlags where
  raw : UInt8
  isApplication : Bool
  isControl : Bool
  isSegmented : UInt8
  isFirstSegment : Bool
  isLastSegment : Bool
  isMiddleSegment : Bool
  isClient : Bool
  isServer : Bool
  isLsb : Bool
  isMsb : Bool
  isValid : Bool
  deriving DecidableEq, Repr

def PvaControlFlags.new (raw : UInt8) : PvaControlFlags :=
  let isSegmented := (raw &&& 0x30) >>> 4
  { raw
    isApplication := raw &&& 0x01 = 0
    isControl := raw &&& 0x01 ≠ 0
    isSegmented
    isFirstSegment := isSegmented = 0x01
    isLastSegment := isSegmented = 0x02
    isMiddleSegment := isSegmented = 0x03
    isClient := raw &&& 0x40 = 0
    isServer := raw &&& 0x40 ≠ 0
    isLsb := raw &&& 0x80 = 0
    isMsb := raw &&& 0x80 ≠ 0
    isValid := raw &&& 0x0E = 0 }

structure PvaHeader where
  magic : UInt8
  version : UInt8
  flags : PvaControlFlags
  command : UInt8
  payloadLength : UInt32
  deriving DecidableEq, Repr

def PvaHeader.tryNew : List UInt8 → Option PvaHeader
  | magic :: version :: flags :: command :: l0 :: l1 :: l2 :: l3 :: _ =>
    let flags := PvaControlFlags.new flags
    some ⟨magic, version, flags, command, UInt32.ofNat (ofBytes flags.isMsb [l0, l1, l2, l3])⟩
  | _ => none

/-- The payload is the whole frame, header included. -/
structure PvaPacket where
  header : PvaHeader
  payload : List UInt8

def PvaPacket.tryNew (raw : List UInt8) : Option PvaPacket := do
  let header ← PvaHeader.tryNew raw
  some ⟨header, raw⟩

/-- The length of the well-formed or ill-formed sequence at the head of the
bytes, and its code point if it is well formed: an ill-formed one stops before
the first byte that cannot continue it. -/
def utf8Head : List UInt8 → Nat × Option Nat
  | [] => (0, none)
  | b0 :: rest =>
    let cont (b : UInt8) : Bool := 0x80 ≤ b && b ≤ 0xBF
    let low (b : UInt8) : Nat := b.toNat % 64
    let second (b : UInt8) : Bool :=
      if b0 = 0xE0 then 0xA0 ≤ b && b ≤ 0xBF
      else if b0 = 0xED then 0x80 ≤ b && b ≤ 0x9F
      else if b0 = 0xF0 then 0x90 ≤ b && b ≤ 0xBF
      else if b0 = 0xF4 then 0x80 ≤ b && b ≤ 0x8F
      else cont b
    if b0 < 0x80 then (1, some b0.toNat)
    else if 0xC2 ≤ b0 && b0 ≤ 0xDF then
      match rest with
      | b1 :: _ => if cont b1 then (2, some (b0.toNat % 32 * 64 + low b1)) else (1, none)
      | [] => (1, none)
    else if 0xE0 ≤ b0 && b0 ≤ 0xEF then
      match rest with
      | b1 :: more =>
        if !second b1 then (1, none)
        else
          match more with
          | b2 :: _ => if cont b2 then (3, some ((b0.toNat % 16 * 64 + low b1) * 64 + low b2)) else (2, none)
          | [] => (2, none)
      | [] => (1, none)
    else if 0xF0 ≤ b0 && b0 ≤ 0xF4 then
      match rest with
      | b1 :: more =>
        if !second b1 then (1, none)
        else
          match more with
          | b2 :: more =>
            if !cont b2 then (2, none)
            else
              match more with
              | b3 :: _ =>
                if cont b3 then (4, some (((b0.toNat % 8 * 64 + low b1) * 64 + low b2) * 64 + low b3)) else (3, none)
              | [] => (3, none)
          | [] => (2, none)
      | [] => (1, none)
    else (1, none)

def utf8Chars : Nat → List UInt8 → List Char
  | 0, _ => []
  | _, [] => []
  | fuel + 1, bytes =>
    let (len, code) := utf8Head bytes
    Char.ofNat (code.getD 0xFFFD) :: utf8Chars fuel (bytes.drop len)

/-- Each ill-formed sequence becomes U+FFFD. -/
def fromUtf8Lossy (bytes : List UInt8) : String := String.ofList (utf8Chars bytes.length bytes)

/-- A string of the framing layer: bytes that are not UTF-8 are replaced. -/
def decodeStringLossy (raw : List UInt8) (isBe : Bool) : Option (String × Nat) :=
  match decodeSizePrefixed raw isBe with
  | .error _ => none
  | .ok (size, sizeBytes) =>
    if size = 0 then some ("", sizeBytes)
    else if raw.length < sizeBytes + size then none
    else some (fromUtf8Lossy ((raw.drop sizeBytes).take size), sizeBytes + size)

structure PvaStatus where
  code : UInt8
  message : Option String
  stack : Option String
  deriving DecidableEq, Repr

/-- The byte `0xFF` is a bare success. -/
def decodeStatus (raw : List UInt8) (isBe : Bool) : Option PvaStatus × Nat :=
  match raw with
  | [] => (none, 0)
  | code :: rest =>
    if code = 0xFF then (none, 1)
    else
      match decodeStringLossy rest isBe with
      | none => (some ⟨code, none, none⟩, 1)
      | some (message, consumed) =>
        match decodeStringLossy (rest.drop consumed) isBe with
        | none => (some ⟨code, some message, none⟩, 1 + consumed)
        | some (stack, consumed') => (some ⟨code, some message, some stack⟩, 1 + consumed + consumed')

structure PvaOpPayload where
  sidOrCid : UInt32
  ioid : UInt32
  subcmd : UInt8
  body : List UInt8
  command : UInt8
  isServer : Bool
  status : Option PvaStatus
  introspection : Option StructureDesc
  decodedValue : Option DecodedValue

namespace PvaOpPayload

def word (raw : List UInt8) (isBe : Bool) (offset : Nat) : UInt32 := UInt32.ofNat (ofBytes isBe ((raw.drop offset).take 4))

/-- The fixed header of an operation: a client's starts with the channel id. -/
def opHeader (raw : List UInt8) (isBe isServer : Bool) : Option (UInt32 × UInt32 × UInt8 × Nat) :=
  if isServer then
    if raw.length < 5 then none else some (0, word raw isBe 0, raw.getD 4 0, 5)
  else if raw.length < 9 then none
  else some (word raw isBe 0, word raw isBe 4, raw.getD 8 0, 9)

/-- A server's response carries a status if it is an INIT, or on any command but MONITOR and ARRAY. -/
def hasStatus (isServer : Bool) (subcmd command : UInt8) : Bool :=
  isServer && (subcmd &&& 0x08 ≠ 0 || (command ≠ 13 && command ≠ 14))

def new (raw : List UInt8) (isBe isServer : Bool) (command : UInt8) : Option PvaOpPayload :=
  if raw.length < 5 then none
  else do
    let (sidOrCid, ioid, subcmd, offset) ← opHeader raw isBe isServer
    let body := raw.drop offset
    let (status, consumed) :=
      if ¬ body.isEmpty ∧ hasStatus isServer subcmd command then decodeStatus body isBe else (none, 0)
    let pvdRaw := body.drop consumed
    let dec := PvdDecoder.new isBe
    let introspection :=
      if isServer ∧ subcmd &&& 0x08 ≠ 0 ∧ ¬ pvdRaw.isEmpty then (dec.parseIntrospection pvdRaw dec.fresh).1.toOption
      else none
    some ⟨sidOrCid, ioid, subcmd, pvdRaw, command, isServer, status, introspection, none⟩

/-- The body decoded against a descriptor, by a decoder of its own, a monitor update in specification order. -/
def decodeWithFieldDesc (op : PvaOpPayload) (desc : StructureDesc) (isBe : Bool) : Except DecodeError PvaOpPayload :=
  if op.body.isEmpty then .ok op
  else
    let dec := PvdDecoder.new isBe
    if op.subcmd = 0x00 ∨ op.subcmd &&& 0x40 ≠ 0 then
      if op.command = 13 then do
        let update ← (dec.decodeMonitorUpdate op.body desc dec.fresh).1
        .ok { op with decodedValue := some update.value }
      else do
        let (value, _) ← (dec.decodeStructureWithBitset op.body desc dec.fresh).1
        .ok { op with decodedValue := some value }
    else do
      let (value, _) ← (dec.decodeStructure op.body desc dec.fresh).1
      .ok { op with decodedValue := some value }

end PvaOpPayload

/-- What a packet carries: a control command, an operation, or one of the other commands, not taken apart here. -/
inductive PvaPacketCommand where
  | control (command : UInt8) (data : UInt32)
  | op (payload : PvaOpPayload)
  | other (command : UInt8) (payload : List UInt8)

def isOpCommand (command : UInt8) : Bool := command ∈ [10, 11, 12, 13, 14, 16, 20]

/-- The payload of a packet is as long as its header says. -/
def PvaPacket.decodePayload (packet : PvaPacket) : Option PvaPacketCommand :=
  let expected := if packet.header.flags.isControl then 8 else 8 + packet.header.payloadLength.toNat
  if packet.payload.length < 8 then none
  else if packet.payload.length < expected then none
  else
    let slice := (packet.payload.take expected).drop 8
    if packet.header.flags.isControl then some (.control packet.header.command packet.header.payloadLength)
    else if isOpCommand packet.header.command then
      match PvaOpPayload.new slice packet.header.flags.isMsb packet.header.flags.isServer packet.header.command with
      | some op => some (.op op)
      | none => some (.other packet.header.command slice)
    else some (.other packet.header.command slice)

end Spvirit
