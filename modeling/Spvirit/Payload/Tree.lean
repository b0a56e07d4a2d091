import Spvirit.Codec.Typing
import Spvirit.Payload.Encode

/-! The field tree of a payload: what a client should see of it. -/

namespace Spvirit

def dvScalar : ScalarValue → DecodedValue
  | .bool v => .boolean v
  | .i8 v => .int8 v
  | .i16 v => .int16 v
  | .i32 v => .int32 v
  | .i64 v => .int64 v
  | .u8 v => .uint8 v
  | .u16 v => .uint16 v
  | .u32 v => .uint32 v
  | .u64 v => .uint64 v
  | .f32 v => .float32 v
  | .f64 v => .float64 v
  | .str v => .string v

def dvScalarArray (v : ScalarArrayValue) : DecodedValue := .array (v.items.map dvScalar)

def dvStringArray (v : List String) : DecodedValue := .array (v.map .string)

def dvFormChoices (v : List String) : DecodedValue :=
  if v.isEmpty then .array (standardFormChoices.map .string) else dvStringArray v

def dvAlarm (severity status : Int32) (message : String) : DecodedValue :=
  .structure [("severity", .int32 severity), ("status", .int32 status), ("message", .string message)]

def dvNtAlarm (a : NtAlarm) : DecodedValue := dvAlarm a.severity a.status a.message

def dvNtTimestamp (ts : NtTimeStamp) : DecodedValue :=
  .structure [("secondsPastEpoch", .int64 ts.secondsPastEpoch), ("nanoseconds", .int32 ts.nanoseconds),
    ("userTag", .int32 ts.userTag)]

def dvEnum (index : Int32) (choices : DecodedValue) : DecodedValue :=
  .structure [("index", .int32 index), ("choices", choices)]

def dvDisplay (d : NtDisplay) : DecodedValue :=
  .structure [("limitLow", .float64 d.limitLow), ("limitHigh", .float64 d.limitHigh),
    ("description", .string d.description), ("units", .string d.units), ("precision", .int32 d.precision),
    ("form", dvEnum 0 (dvFormChoices []))]

def dvControl (low high minStep : F64) : DecodedValue :=
  .structure [("limitLow", .float64 low), ("limitHigh", .float64 high), ("minStep", .float64 minStep)]

def dvScalarDisplay (nt : NtScalar) : DecodedValue :=
  .structure [("limitLow", .float64 nt.displayLow), ("limitHigh", .float64 nt.displayHigh),
    ("description", .string nt.displayDescription), ("units", .string nt.units),
    ("precision", .int32 nt.displayPrecision), ("form", dvEnum nt.displayFormIndex (dvFormChoices nt.displayFormChoices))]

def dvValueAlarm (nt : NtScalar) : DecodedValue :=
  .structure [("active", .boolean nt.valueAlarmActive), ("lowAlarmLimit", .float64 nt.valueAlarmLowAlarmLimit),
    ("lowWarningLimit", .float64 nt.valueAlarmLowWarningLimit),
    ("highWarningLimit", .float64 nt.valueAlarmHighWarningLimit),
    ("highAlarmLimit", .float64 nt.valueAlarmHighAlarmLimit),
    ("lowAlarmSeverity", .int32 nt.valueAlarmLowAlarmSeverity),
    ("lowWarningSeverity", .int32 nt.valueAlarmLowWarningSeverity),
    ("highWarningSeverity", .int32 nt.valueAlarmHighWarningSeverity),
    ("highAlarmSeverity", .int32 nt.valueAlarmHighAlarmSeverity), ("hysteresis", .uint8 nt.valueAlarmHysteresis)]

def dvNtScalarFields (clock : Int64 × Int32) (nt : NtScalar) : List (String × DecodedValue) :=
  [("value", dvScalar nt.value), ("alarm", dvAlarm nt.alarmSeverity nt.alarmStatus nt.alarmMessage),
    ("timeStamp", dvNtTimestamp (scalarStamp clock nt)), ("display", dvScalarDisplay nt),
    ("control", dvControl nt.controlLow nt.controlHigh nt.controlMinStep), ("valueAlarm", dvValueAlarm nt)]

def dvNtScalarArrayFields (nt : NtScalarArray) : List (String × DecodedValue) :=
  [("value", dvScalarArray nt.value), ("alarm", dvNtAlarm nt.alarm), ("timeStamp", dvNtTimestamp nt.timeStamp),
    ("display", dvDisplay nt.display),
    ("control", dvControl nt.control.limitLow nt.control.limitHigh nt.control.minStep)]

def dvColumn (col : NtTableColumn) : String × DecodedValue := (col.name, dvScalarArray col.values)

def dvNtTableFields (nt : NtTable) : List (String × DecodedValue) :=
  [("labels", dvStringArray nt.labels), ("value", .structure (nt.columns.map dvColumn)),
    ("descriptor", .string (nt.descriptor.getD "")), ("alarm", dvNtAlarm (nt.alarm.getD {})),
    ("timeStamp", dvNtTimestamp (nt.timeStamp.getD {}))]

def ndarrayUnionFieldName : ScalarArrayValue → String
  | .bool _ => "booleanValue"
  | .i8 _ => "byteValue"
  | .i16 _ => "shortValue"
  | .i32 _ => "intValue"
  | .i64 _ => "longValue"
  | .u8 _ => "ubyteValue"
  | .u16 _ => "ushortValue"
  | .u32 _ => "uintValue"
  | .u64 _ => "ulongValue"
  | .f32 _ => "floatValue"
  | .f64 _ => "doubleValue"
  | .str _ => "stringValue"

/-- The values by sorted key. -/
def parameterFields (parameters : StringMap) : List (String × DecodedValue) :=
  parameters.sortedKeys.map fun key => (key, .string ((parameters.get key).getD ""))

def dvCodecParameters (parameters : StringMap) : DecodedValue :=
  if parameters.entries.isEmpty then .null else .structure (parameterFields parameters)

def dimensionFields (d : NdDimension) : List (String × DecodedValue) :=
  [("size", .int32 d.size), ("offset", .int32 d.offset), ("fullSize", .int32 d.fullSize), ("binning", .int32 d.binning),
    ("reverse", .boolean d.reverse)]

def dvDimensions (dimension : List NdDimension) : DecodedValue :=
  .array (dimension.map fun d => .structure (dimensionFields d))

def attributeFields (a : NtAttribute) : List (String × DecodedValue) :=
  [("name", .string a.name), ("value", dvScalar a.value), ("descriptor", .string a.descriptor),
    ("sourceType", .int32 a.sourceType), ("source", .string a.source)]

def dvAttributes (attributes : List NtAttribute) : DecodedValue :=
  .array (attributes.map fun a => .structure (attributeFields a))

def dvNtNdarrayFields (nt : NtNdArray) : List (String × DecodedValue) :=
  [("value", .structure [(ndarrayUnionFieldName nt.value, dvScalarArray nt.value)]),
    ("codec", .structure [("name", .string nt.codec.name), ("parameters", dvCodecParameters nt.codec.parameters)]),
    ("compressedSize", .int64 nt.compressedSize), ("uncompressedSize", .int64 nt.uncompressedSize),
    ("dimension", dvDimensions nt.dimension), ("uniqueId", .int32 nt.uniqueId),
    ("dataTimeStamp", dvNtTimestamp nt.dataTimeStamp), ("attribute", dvAttributes nt.attributes),
    ("descriptor", .string (nt.descriptor.getD "")), ("alarm", dvNtAlarm (nt.alarm.getD {})),
    ("timeStamp", dvNtTimestamp (nt.timeStamp.getD {})), ("display", dvDisplay (nt.display.getD {}))]

def dvNtEnumFields (nt : NtEnum) : List (String × DecodedValue) :=
  [("value", dvEnum nt.index (dvStringArray nt.choices)), ("alarm", dvNtAlarm nt.alarm),
    ("timeStamp", dvNtTimestamp nt.timeStamp)]

mutual

def dvPvValue : PvValue → DecodedValue
  | .scalar sv => dvScalar sv
  | .scalarArray sa => dvScalarArray sa
  | .structure _ fields => .structure (dvGenericFields fields)

def dvGenericFields : List (String × PvValue) → List (String × DecodedValue)
  | [] => []
  | f :: fs => (f.1, dvPvValue f.2) :: dvGenericFields fs

end

def ntPayloadFields (clock : Int64 × Int32) : NtPayload → List (String × DecodedValue)
  | .scalar nt => dvNtScalarFields clock nt
  | .scalarArray nt => dvNtScalarArrayFields nt
  | .table nt => dvNtTableFields nt
  | .ndArray nt => dvNtNdarrayFields nt
  | .enum nt => dvNtEnumFields nt
  | .generic _ fields => dvGenericFields fields

def ntPayloadToDecoded (clock : Int64 × Int32) (p : NtPayload) : DecodedValue := .structure (ntPayloadFields clock p)

end Spvirit
