import Spvirit.Payload.TreeBytes

/-! A payload read in place, as the nodes of the tree it stands for. -/

namespace Spvirit

/-- The variant of a decoded value that a view stands for. -/
inductive Kind where
  | null
  | boolean
  | int8
  | int16
  | int32
  | int64
  | uint8
  | uint16
  | uint32
  | uint64
  | float32
  | float64
  | string
  | array
  | struct
  deriving DecidableEq, Repr

/-- One node of a payload's tree. A structure is a fixed list of named fields. -/
inductive View where
  | scalar (v : ScalarValue)
  | array (a : ScalarArrayValue)
  | strings (s : List String)
  | standardChoices
  | dimensions (d : List NdDimension)
  | attributes (a : List NtAttribute)
  | codecParameters (p : StringMap)
  | struct (fields : List (String × View))

/-- The field called `name`: at the hint if it is there, else the first of that
name. The hint moves past the field found. -/
def locate {α : Type} (fields : List (String × α)) (name : String) (hint : Nat) : Option α × Nat :=
  match fields[hint]? with
  | some f => if f.1 = name then (some f.2, hint + 1) else scan
  | none => scan
where
  scan : Option α × Nat :=
    match fields.findIdx? fun f => f.1 = name with
    | some i => ((fields[i]?).map Prod.snd, i + 1)
    | none => (none, hint)

def scalarKind : ScalarValue → Kind
  | .bool _ => .boolean
  | .i8 _ => .int8
  | .i16 _ => .int16
  | .i32 _ => .int32
  | .i64 _ => .int64
  | .u8 _ => .uint8
  | .u16 _ => .uint16
  | .u32 _ => .uint32
  | .u64 _ => .uint64
  | .f32 _ => .float32
  | .f64 _ => .float64
  | .str _ => .string

def scalarArrayKind : ScalarArrayValue → Kind
  | .bool _ => .boolean
  | .i8 _ => .int8
  | .i16 _ => .int16
  | .i32 _ => .int32
  | .i64 _ => .int64
  | .u8 _ => .uint8
  | .u16 _ => .uint16
  | .u32 _ => .uint32
  | .u64 _ => .uint64
  | .f32 _ => .float32
  | .f64 _ => .float64
  | .str _ => .string

namespace View

def alarmView (severity status : Int32) (message : String) : View :=
  .struct [("severity", .scalar (.i32 severity)), ("status", .scalar (.i32 status)), ("message", .scalar (.str message))]

def optionalAlarmView : Option NtAlarm → View
  | some a => alarmView a.severity a.status a.message
  | none => alarmView 0 0 ""

def timestampView (ts : NtTimeStamp) : View :=
  .struct [("secondsPastEpoch", .scalar (.i64 ts.secondsPastEpoch)), ("nanoseconds", .scalar (.i32 ts.nanoseconds)),
    ("userTag", .scalar (.i32 ts.userTag))]

def optionalTimestampView : Option NtTimeStamp → View
  | some ts => timestampView ts
  | none => timestampView ⟨0, 0, 0⟩

/-- Empty choices are the standard ones. -/
def formView (index : Int32) (choices : List String) : View :=
  .struct [("index", .scalar (.i32 index)), ("choices", if choices.isEmpty then .standardChoices else .strings choices)]

def displayFields (limitLow limitHigh : F64) (description units : String) (precision : Int32) (form : View) : View :=
  .struct [("limitLow", .scalar (.f64 limitLow)), ("limitHigh", .scalar (.f64 limitHigh)),
    ("description", .scalar (.str description)), ("units", .scalar (.str units)), ("precision", .scalar (.i32 precision)),
    ("form", form)]

def scalarDisplayView (nt : NtScalar) : View :=
  displayFields nt.displayLow nt.displayHigh nt.displayDescription nt.units nt.displayPrecision
    (formView nt.displayFormIndex nt.displayFormChoices)

def displayView : Option NtDisplay → View
  | some d => displayFields d.limitLow d.limitHigh d.description d.units d.precision (formView 0 [])
  | none => displayFields ⟨0⟩ ⟨0⟩ "" "" 0 (formView 0 [])

def controlView (low high minStep : F64) : View :=
  .struct [("limitLow", .scalar (.f64 low)), ("limitHigh", .scalar (.f64 high)), ("minStep", .scalar (.f64 minStep))]

def valueAlarmView (nt : NtScalar) : View :=
  .struct [("active", .scalar (.bool nt.valueAlarmActive)), ("lowAlarmLimit", .scalar (.f64 nt.valueAlarmLowAlarmLimit)),
    ("lowWarningLimit", .scalar (.f64 nt.valueAlarmLowWarningLimit)),
    ("highWarningLimit", .scalar (.f64 nt.valueAlarmHighWarningLimit)),
    ("highAlarmLimit", .scalar (.f64 nt.valueAlarmHighAlarmLimit)),
    ("lowAlarmSeverity", .scalar (.i32 nt.valueAlarmLowAlarmSeverity)),
    ("lowWarningSeverity", .scalar (.i32 nt.valueAlarmLowWarningSeverity)),
    ("highWarningSeverity", .scalar (.i32 nt.valueAlarmHighWarningSeverity)),
    ("highAlarmSeverity", .scalar (.i32 nt.valueAlarmHighAlarmSeverity)),
    ("hysteresis", .scalar (.u8 nt.valueAlarmHysteresis))]

mutual

def pv : PvValue → View
  | .scalar sv => .scalar sv
  | .scalarArray sa => .array sa
  | .structure _ fields => .struct (pvFields fields)

def pvFields : List (String × PvValue) → List (String × View)
  | [] => []
  | f :: fs => (f.1, pv f.2) :: pvFields fs

end

/-- The fields of a payload. A time stamp that is not stored is read off the clock once. -/
def payloadFields (clock : Int64 × Int32) : NtPayload → List (String × View)
  | .scalar nt =>
    [("value", .scalar nt.value), ("alarm", alarmView nt.alarmSeverity nt.alarmStatus nt.alarmMessage),
      ("timeStamp", timestampView (scalarStamp clock nt)), ("display", scalarDisplayView nt),
      ("control", controlView nt.controlLow nt.controlHigh nt.controlMinStep), ("valueAlarm", valueAlarmView nt)]
  | .scalarArray nt =>
    [("value", .array nt.value), ("alarm", alarmView nt.alarm.severity nt.alarm.status nt.alarm.message),
      ("timeStamp", timestampView nt.timeStamp), ("display", displayView (some nt.display)),
      ("control", controlView nt.control.limitLow nt.control.limitHigh nt.control.minStep)]
  | .table nt =>
    [("labels", .strings nt.labels), ("value", .struct (nt.columns.map fun c => (c.name, .array c.values))),
      ("descriptor", .scalar (.str (nt.descriptor.getD ""))), ("alarm", optionalAlarmView nt.alarm),
      ("timeStamp", optionalTimestampView nt.timeStamp)]
  | .ndArray nt =>
    [("value", .struct [(ndarrayUnionFieldName nt.value, .array nt.value)]),
      ("codec", .struct [("name", .scalar (.str nt.codec.name)), ("parameters", .codecParameters nt.codec.parameters)]),
      ("compressedSize", .scalar (.i64 nt.compressedSize)), ("uncompressedSize", .scalar (.i64 nt.uncompressedSize)),
      ("dimension", .dimensions nt.dimension), ("uniqueId", .scalar (.i32 nt.uniqueId)),
      ("dataTimeStamp", timestampView nt.dataTimeStamp), ("attribute", .attributes nt.attributes),
      ("descriptor", .scalar (.str (nt.descriptor.getD ""))), ("alarm", optionalAlarmView nt.alarm),
      ("timeStamp", optionalTimestampView nt.timeStamp), ("display", displayView nt.display)]
  | .enum nt =>
    [("value", .struct [("index", .scalar (.i32 nt.index)), ("choices", .strings nt.choices)]),
      ("alarm", alarmView nt.alarm.severity nt.alarm.status nt.alarm.message), ("timeStamp", timestampView nt.timeStamp)]
  | .generic _ fields => pvFields fields

def ofPayload (clock : Int64 × Int32) (p : NtPayload) : View := .struct (payloadFields clock p)

def kind : View → Kind
  | .scalar v => scalarKind v
  | .array _ | .strings _ | .standardChoices | .dimensions _ | .attributes _ => .array
  | .codecParameters p => if p.entries.isEmpty then .null else .struct
  | .struct _ => .struct

def arrayLen : View → Nat
  | .array a => a.items.length
  | .strings s => s.length
  | .standardChoices => standardFormChoices.length
  | .dimensions d => d.length
  | .attributes a => a.length
  | _ => 0

def elementKind : View → Kind
  | .array a => scalarArrayKind a
  | .strings _ | .standardChoices => .string
  | _ => .struct

/-- The keys of a parameter map are unique, so the hint does not matter. -/
def field : View → String → Nat → Option View × Nat
  | .struct fields, name, hint => locate fields name hint
  | .codecParameters p, name, hint => ((p.get name).map fun v => .scalar (.str v), hint)
  | _, _, hint => (none, hint)

mutual

def toDecoded : View → DecodedValue
  | .scalar v => dvScalar v
  | .array a => dvScalarArray a
  | .strings s => dvStringArray s
  | .standardChoices => dvFormChoices []
  | .dimensions d => dvDimensions d
  | .attributes a => dvAttributes a
  | .codecParameters p => dvCodecParameters p
  | .struct fields => .structure (decodedFields fields)

def decodedFields : List (String × View) → List (String × DecodedValue)
  | [] => []
  | f :: fs => (f.1, toDecoded f.2) :: decodedFields fs

end

end View

/-- Element by element with NaN equal to NaN; arrays of different types are equal only if both are empty. -/
def scalarArraysEqual : ScalarArrayValue → ScalarArrayValue → Bool
  | .bool x, .bool y => x = y
  | .i8 x, .i8 y => x = y
  | .i16 x, .i16 y => x = y
  | .i32 x, .i32 y => x = y
  | .i64 x, .i64 y => x = y
  | .u8 x, .u8 y => x = y
  | .u16 x, .u16 y => x = y
  | .u32 x, .u32 y => x = y
  | .u64 x, .u64 y => x = y
  | .f32 x, .f32 y => x.length = y.length && (x.zip y).all fun p => p.1.same p.2
  | .f64 x, .f64 y => x.length = y.length && (x.zip y).all fun p => p.1.same p.2
  | .str x, .str y => x = y
  | x, y => x.items.length = 0 && y.items.length = 0

/-- Scalars of one kind, with NaN equal to NaN. -/
def scalarsEqual : ScalarValue → ScalarValue → Option Bool
  | .bool x, .bool y => some (x = y)
  | .i8 x, .i8 y => some (x = y)
  | .i16 x, .i16 y => some (x = y)
  | .i32 x, .i32 y => some (x = y)
  | .i64 x, .i64 y => some (x = y)
  | .u8 x, .u8 y => some (x = y)
  | .u16 x, .u16 y => some (x = y)
  | .u32 x, .u32 y => some (x = y)
  | .u64 x, .u64 y => some (x = y)
  | .f32 x, .f32 y => some (x.same y)
  | .f64 x, .f64 y => some (x.same y)
  | .str x, .str y => some (x = y)
  | _, _ => none

/-- Views of other pairs of shapes: rejected by kind, length or element kind where that decides it. -/
def otherViewsEqual (a b : View) : Bool :=
  if a.kind ≠ b.kind then false
  else if a.kind = .array ∧ a.arrayLen ≠ b.arrayLen then false
  else if a.kind = .array ∧ a.arrayLen = 0 then true
  else if a.kind = .array ∧ a.elementKind ≠ b.elementKind then false
  else decodedValuesEqual a.toDecoded b.toDecoded

mutual

def viewsEqual : View → View → Bool
  | .scalar x, .scalar y => (scalarsEqual x y).getD (otherViewsEqual (.scalar x) (.scalar y))
  | .array x, .array y => scalarArraysEqual x y
  | .strings x, .strings y => x = y
  | .array (.str x), .strings y => x = y
  | .strings y, .array (.str x) => x = y
  | .standardChoices, .standardChoices => true
  | .dimensions x, .dimensions y => x = y
  | .codecParameters x, .codecParameters y => x.eq y
  | .struct x, .struct y => viewFieldsEqual x y
  | a, b => otherViewsEqual a b

def viewFieldsEqual : List (String × View) → List (String × View) → Bool
  | [], [] => true
  | x :: xs, y :: ys => x.1 = y.1 && viewsEqual x.2 y.2 && viewFieldsEqual xs ys
  | _, _ => false

end

section

variable (isBe : Bool)

mutual

def pushView : View → List UInt8
  | .scalar v => encodeScalarValue isBe v
  | .array a => pushScalarArrayValue isBe a
  | .strings s => pushStringArray isBe s
  | .standardChoices => pushStringArray isBe standardFormChoices
  | .struct fields => pushViewFields fields
  | .dimensions d => pushDecodedValue isBe (View.dimensions d).toDecoded
  | .attributes a => pushDecodedValue isBe (View.attributes a).toDecoded
  | .codecParameters p => pushDecodedValue isBe (View.codecParameters p).toDecoded

def pushViewFields : List (String × View) → List UInt8
  | [] => []
  | f :: fs => pushView f.2 ++ pushViewFields fs

end

end

end Spvirit
