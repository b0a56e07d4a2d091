import Spvirit.Codec.EncodeBits
import Spvirit.Payload.Descriptors

/-! The full value block of each payload. Each encoder follows its descriptor by hand. -/

namespace Spvirit

open ByteOrder

section

variable (isBe : Bool)

def encodeBool (value : Bool) : List UInt8 := [if value then 1 else 0]
def encodeI32 (value : Int32) : List UInt8 := toBytes isBe 4 value.toUInt32.toNat
def encodeI64 (value : Int64) : List UInt8 := toBytes isBe 8 value.toUInt64.toNat
def encodeF64 (value : F64) : List UInt8 := toBytes isBe 8 value.bits.toNat

def encodeScalarValue : ScalarValue → List UInt8
  | .bool v => encodeBool v
  | .i8 v => [v.toUInt8]
  | .i16 v => toBytes isBe 2 v.toUInt16.toNat
  | .i32 v => encodeI32 isBe v
  | .i64 v => encodeI64 isBe v
  | .u8 v => [v]
  | .u16 v => toBytes isBe 2 v.toNat
  | .u32 v => toBytes isBe 4 v.toNat
  | .u64 v => toBytes isBe 8 v.toNat
  | .f32 v => toBytes isBe 4 v.bits.toNat
  | .f64 v => encodeF64 isBe v
  | .str v => pushString v isBe

def pushStringArray (values : List String) : List UInt8 :=
  pushSize values.length isBe ++ values.flatMap fun s => pushString s isBe

/-- A size-prefixed run of elements of `width` bytes. -/
def pushFixedWidth {α : Type} (values : List α) (width : Nat) (word : α → Nat) : List UInt8 :=
  pushSize values.length isBe ++ values.flatMap fun v => toBytes isBe width (word v)

def pushScalarArrayValue : ScalarArrayValue → List UInt8
  | .bool v => pushSize v.length isBe ++ v.map fun b => if b then 1 else 0
  | .i8 v => pushSize v.length isBe ++ v.map Int8.toUInt8
  | .i16 v => pushFixedWidth isBe v 2 fun x => x.toUInt16.toNat
  | .i32 v => pushFixedWidth isBe v 4 fun x => x.toUInt32.toNat
  | .i64 v => pushFixedWidth isBe v 8 fun x => x.toUInt64.toNat
  | .u8 v => pushSize v.length isBe ++ v
  | .u16 v => pushFixedWidth isBe v 2 UInt16.toNat
  | .u32 v => pushFixedWidth isBe v 4 UInt32.toNat
  | .u64 v => pushFixedWidth isBe v 8 UInt64.toNat
  | .f32 v => pushFixedWidth isBe v 4 fun x => x.bits.toNat
  | .f64 v => pushFixedWidth isBe v 8 fun x => x.bits.toNat
  | .str v => pushStringArray isBe v

def encodeEnum (index : Int32) (choices : List String) : List UInt8 :=
  encodeI32 isBe index ++ pushStringArray isBe choices

def encodeNtAlarm (alarm : NtAlarm) : List UInt8 :=
  encodeI32 isBe alarm.severity ++ encodeI32 isBe alarm.status ++ pushString alarm.message isBe

def encodeNtTimestamp (ts : NtTimeStamp) : List UInt8 :=
  encodeI64 isBe ts.secondsPastEpoch ++ encodeI32 isBe ts.nanoseconds ++ encodeI32 isBe ts.userTag

/-- A display has no form of its own: the standard choices at index 0 go out for it. -/
def encodeNtDisplay (display : NtDisplay) : List UInt8 :=
  encodeF64 isBe display.limitLow ++ encodeF64 isBe display.limitHigh ++ pushString display.description isBe ++
    pushString display.units isBe ++ encodeI32 isBe display.precision ++ encodeEnum isBe 0 standardFormChoices

def encodeAlarm (nt : NtScalar) : List UInt8 :=
  encodeI32 isBe nt.alarmSeverity ++ encodeI32 isBe nt.alarmStatus ++ pushString nt.alarmMessage isBe

end

/-- The stored time stamp, or the clock's seconds and nanoseconds. -/
def scalarStamp (clock : Int64 × Int32) (nt : NtScalar) : NtTimeStamp :=
  match nt.timeStamp with
  | some ts => ts
  | none => ⟨clock.1, clock.2, 0⟩

section

variable (clock : Int64 × Int32) (isBe : Bool)

def encodeTimestamp (nt : NtScalar) : List UInt8 :=
  let stamp := scalarStamp clock nt
  encodeI64 isBe stamp.secondsPastEpoch ++ encodeI32 isBe stamp.nanoseconds ++ encodeI32 isBe stamp.userTag

def encodeDisplay (nt : NtScalar) : List UInt8 :=
  encodeF64 isBe nt.displayLow ++ encodeF64 isBe nt.displayHigh ++ pushString nt.displayDescription isBe ++
    pushString nt.units isBe ++ encodeI32 isBe nt.displayPrecision ++
    (if nt.displayFormChoices.isEmpty then encodeEnum isBe nt.displayFormIndex standardFormChoices
      else encodeEnum isBe nt.displayFormIndex nt.displayFormChoices)

def encodeControl (nt : NtScalar) : List UInt8 :=
  encodeF64 isBe nt.controlLow ++ encodeF64 isBe nt.controlHigh ++ encodeF64 isBe nt.controlMinStep

def encodeValueAlarm (nt : NtScalar) : List UInt8 :=
  encodeBool nt.valueAlarmActive ++ encodeF64 isBe nt.valueAlarmLowAlarmLimit ++
    encodeF64 isBe nt.valueAlarmLowWarningLimit ++ encodeF64 isBe nt.valueAlarmHighWarningLimit ++
    encodeF64 isBe nt.valueAlarmHighAlarmLimit ++ encodeI32 isBe nt.valueAlarmLowAlarmSeverity ++
    encodeI32 isBe nt.valueAlarmLowWarningSeverity ++ encodeI32 isBe nt.valueAlarmHighWarningSeverity ++
    encodeI32 isBe nt.valueAlarmHighAlarmSeverity ++ [nt.valueAlarmHysteresis]

def pushNtScalarFull (nt : NtScalar) : List UInt8 :=
  encodeScalarValue isBe nt.value ++ encodeAlarm isBe nt ++ encodeTimestamp clock isBe nt ++ encodeDisplay isBe nt ++
    encodeControl isBe nt ++ encodeValueAlarm isBe nt

def pushNtScalarArrayFull (nt : NtScalarArray) : List UInt8 :=
  pushScalarArrayValue isBe nt.value ++ encodeNtAlarm isBe nt.alarm ++ encodeNtTimestamp isBe nt.timeStamp ++
    encodeNtDisplay isBe nt.display ++ encodeF64 isBe nt.control.limitLow ++ encodeF64 isBe nt.control.limitHigh ++
    encodeF64 isBe nt.control.minStep

def pushNtTableFull (nt : NtTable) : List UInt8 :=
  pushStringArray isBe nt.labels ++ (nt.columns.flatMap fun col => pushScalarArrayValue isBe col.values) ++
    pushString (nt.descriptor.getD "") isBe ++ encodeNtAlarm isBe (nt.alarm.getD {}) ++
    encodeNtTimestamp isBe (nt.timeStamp.getD {})

def ndarrayUnionIndex : ScalarArrayValue → Nat
  | .bool _ => 0
  | .i8 _ => 1
  | .i16 _ => 2
  | .i32 _ => 3
  | .i64 _ => 4
  | .u8 _ => 5
  | .u16 _ => 6
  | .u32 _ => 7
  | .u64 _ => 8
  | .f32 _ => 9
  | .f64 _ => 10
  | .str _ => 11

def parametersDesc (parameters : StringMap) : StructureDesc :=
  ⟨none, parameters.sortedKeys.map fun key => ⟨key, .string⟩⟩

/-- A variant: null if there are no parameters, else a structure descriptor and the values, keys sorted. -/
def encodeCodecParameters (parameters : StringMap) : List UInt8 :=
  if parameters.entries.isEmpty then [0xFF]
  else
    0x80 :: encodeStructureDesc isBe (parametersDesc parameters) ++
      parameters.sortedKeys.flatMap fun key => pushString ((parameters.get key).getD "") isBe

def encodeAttributeVariant (value : ScalarValue) : List UInt8 :=
  (scalarValueTypeCode value).toByte :: encodeScalarValue isBe value

def pushDimension (d : NdDimension) : List UInt8 :=
  encodeI32 isBe d.size ++ encodeI32 isBe d.offset ++ encodeI32 isBe d.fullSize ++ encodeI32 isBe d.binning ++
    encodeBool d.reverse

def pushAttribute (a : NtAttribute) : List UInt8 :=
  pushString a.name isBe ++ encodeAttributeVariant isBe a.value ++ pushString a.descriptor isBe ++
    encodeI32 isBe a.sourceType ++ pushString a.source isBe

/-- An element of a structure array goes out behind a nonzero null indicator. -/
def pushNtNdarrayFull (nt : NtNdArray) : List UInt8 :=
  pushSize (ndarrayUnionIndex nt.value) isBe ++ pushScalarArrayValue isBe nt.value ++
    pushString nt.codec.name isBe ++ encodeCodecParameters isBe nt.codec.parameters ++
    encodeI64 isBe nt.compressedSize ++ encodeI64 isBe nt.uncompressedSize ++
    pushSize nt.dimension.length isBe ++ (nt.dimension.flatMap fun d => 1 :: pushDimension isBe d) ++
    encodeI32 isBe nt.uniqueId ++ encodeNtTimestamp isBe nt.dataTimeStamp ++
    pushSize nt.attributes.length isBe ++ (nt.attributes.flatMap fun a => 1 :: pushAttribute isBe a) ++
    pushString (nt.descriptor.getD "") isBe ++ encodeNtAlarm isBe (nt.alarm.getD {}) ++
    encodeNtTimestamp isBe (nt.timeStamp.getD {}) ++ encodeNtDisplay isBe (nt.display.getD {})

def pushNtEnumFull (nt : NtEnum) : List UInt8 :=
  encodeEnum isBe nt.index nt.choices ++ encodeNtAlarm isBe nt.alarm ++ encodeNtTimestamp isBe nt.timeStamp

mutual

def pushPvValue : PvValue → List UInt8
  | .scalar sv => encodeScalarValue isBe sv
  | .scalarArray sa => pushScalarArrayValue isBe sa
  | .structure _ fields => pushPvValueFields fields

def pushPvValueFields : List (String × PvValue) → List UInt8
  | [] => []
  | f :: fs => pushPvValue f.2 ++ pushPvValueFields fs

end

def pushNtPayloadFull : NtPayload → List UInt8
  | .scalar nt => pushNtScalarFull clock isBe nt
  | .scalarArray nt => pushNtScalarArrayFull isBe nt
  | .table nt => pushNtTableFull isBe nt
  | .ndArray nt => pushNtNdarrayFull isBe nt
  | .enum nt => pushNtEnumFull isBe nt
  | .generic _ fields => pushPvValueFields isBe fields

/-- The full value block behind a bitset of ones. -/
def pushNtPayloadBitset (p : NtPayload) : List UInt8 :=
  pushAllOnesBitset (1 + ntPayloadFieldCount p) isBe ++ pushNtPayloadFull clock isBe p

end

end Spvirit
