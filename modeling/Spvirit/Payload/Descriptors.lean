import Spvirit.Codec.Bitset
import Spvirit.Payload.Types

/-! The descriptors of the payloads and the number of their field bits. -/

namespace Spvirit

open FieldType TypeCode

def scalarValueTypeCode : ScalarValue → TypeCode
  | .bool _ => boolean
  | .i8 _ => int8
  | .i16 _ => int16
  | .i32 _ => int32
  | .i64 _ => int64
  | .u8 _ => uint8
  | .u16 _ => uint16
  | .u32 _ => uint32
  | .u64 _ => uint64
  | .f32 _ => float32
  | .f64 _ => float64
  | .str _ => TypeCode.string

def scalarFieldType : ScalarValue → FieldType
  | .str _ => FieldType.string
  | v => scalar (scalarValueTypeCode v)

def scalarArrayFieldType : ScalarArrayValue → FieldType
  | .bool _ => scalarArray boolean
  | .i8 _ => scalarArray int8
  | .i16 _ => scalarArray int16
  | .i32 _ => scalarArray int32
  | .i64 _ => scalarArray int64
  | .u8 _ => scalarArray uint8
  | .u16 _ => scalarArray uint16
  | .u32 _ => scalarArray uint32
  | .u64 _ => scalarArray uint64
  | .f32 _ => scalarArray float32
  | .f64 _ => scalarArray float64
  | .str _ => stringArray

def alarmDesc : StructureDesc :=
  ⟨some "alarm_t", [⟨"severity", scalar int32⟩, ⟨"status", scalar int32⟩, ⟨"message", FieldType.string⟩]⟩

def timestampDesc : StructureDesc :=
  ⟨some "time_t", [⟨"secondsPastEpoch", scalar int64⟩, ⟨"nanoseconds", scalar int32⟩, ⟨"userTag", scalar int32⟩]⟩

def enumDesc : StructureDesc := ⟨some "enum_t", [⟨"index", scalar int32⟩, ⟨"choices", stringArray⟩]⟩

def displayDesc : StructureDesc :=
  ⟨some "display_t",
    [⟨"limitLow", scalar float64⟩, ⟨"limitHigh", scalar float64⟩, ⟨"description", FieldType.string⟩,
      ⟨"units", FieldType.string⟩, ⟨"precision", scalar int32⟩, ⟨"form", .structure enumDesc⟩]⟩

def controlDesc : StructureDesc :=
  ⟨some "control_t", [⟨"limitLow", scalar float64⟩, ⟨"limitHigh", scalar float64⟩, ⟨"minStep", scalar float64⟩]⟩

def valueAlarmDesc : StructureDesc :=
  ⟨some "valueAlarm_t",
    [⟨"active", scalar boolean⟩, ⟨"lowAlarmLimit", scalar float64⟩, ⟨"lowWarningLimit", scalar float64⟩,
      ⟨"highWarningLimit", scalar float64⟩, ⟨"highAlarmLimit", scalar float64⟩, ⟨"lowAlarmSeverity", scalar int32⟩,
      ⟨"lowWarningSeverity", scalar int32⟩, ⟨"highWarningSeverity", scalar int32⟩,
      ⟨"highAlarmSeverity", scalar int32⟩, ⟨"hysteresis", scalar uint8⟩]⟩

def ntScalarDesc (value : ScalarValue) : StructureDesc :=
  ⟨some "epics:nt/NTScalar:1.0",
    [⟨"value", scalarFieldType value⟩, ⟨"alarm", .structure alarmDesc⟩, ⟨"timeStamp", .structure timestampDesc⟩,
      ⟨"display", .structure displayDesc⟩, ⟨"control", .structure controlDesc⟩,
      ⟨"valueAlarm", .structure valueAlarmDesc⟩]⟩

def ntScalarArrayDesc (value : ScalarArrayValue) : StructureDesc :=
  ⟨some "epics:nt/NTScalarArray:1.0",
    [⟨"value", scalarArrayFieldType value⟩, ⟨"alarm", .structure alarmDesc⟩, ⟨"timeStamp", .structure timestampDesc⟩,
      ⟨"display", .structure displayDesc⟩, ⟨"control", .structure controlDesc⟩]⟩

def columnDesc (col : NtTableColumn) : FieldDesc := ⟨col.name, scalarArrayFieldType col.values⟩

def ntTableDesc (nt : NtTable) : StructureDesc :=
  ⟨some "epics:nt/NTTable:1.0",
    [⟨"labels", stringArray⟩, ⟨"value", .structure ⟨none, nt.columns.map columnDesc⟩⟩,
      ⟨"descriptor", FieldType.string⟩, ⟨"alarm", .structure alarmDesc⟩, ⟨"timeStamp", .structure timestampDesc⟩]⟩

def ntNdarrayValueUnionFields : List FieldDesc :=
  [⟨"booleanValue", scalarArray boolean⟩, ⟨"byteValue", scalarArray int8⟩, ⟨"shortValue", scalarArray int16⟩,
    ⟨"intValue", scalarArray int32⟩, ⟨"longValue", scalarArray int64⟩, ⟨"ubyteValue", scalarArray uint8⟩,
    ⟨"ushortValue", scalarArray uint16⟩, ⟨"uintValue", scalarArray uint32⟩, ⟨"ulongValue", scalarArray uint64⟩,
    ⟨"floatValue", scalarArray float32⟩, ⟨"doubleValue", scalarArray float64⟩, ⟨"stringValue", stringArray⟩]

def codecDesc : StructureDesc := ⟨some "codec_t", [⟨"name", FieldType.string⟩, ⟨"parameters", FieldType.variant⟩]⟩

def dimensionDesc : StructureDesc :=
  ⟨some "dimension_t",
    [⟨"size", scalar int32⟩, ⟨"offset", scalar int32⟩, ⟨"fullSize", scalar int32⟩, ⟨"binning", scalar int32⟩,
      ⟨"reverse", scalar boolean⟩]⟩

def attributeDesc : StructureDesc :=
  ⟨some "NTAttribute",
    [⟨"name", FieldType.string⟩, ⟨"value", FieldType.variant⟩, ⟨"descriptor", FieldType.string⟩,
      ⟨"sourceType", scalar int32⟩, ⟨"source", FieldType.string⟩]⟩

/-- The same for every array: its value is a union over the element types. -/
def ntNdarrayDesc : StructureDesc :=
  ⟨some "epics:nt/NTNDArray:1.0",
    [⟨"value", union ntNdarrayValueUnionFields⟩, ⟨"codec", .structure codecDesc⟩, ⟨"compressedSize", scalar int64⟩,
      ⟨"uncompressedSize", scalar int64⟩, ⟨"dimension", structureArray dimensionDesc⟩, ⟨"uniqueId", scalar int32⟩,
      ⟨"dataTimeStamp", .structure timestampDesc⟩, ⟨"attribute", structureArray attributeDesc⟩,
      ⟨"descriptor", FieldType.string⟩, ⟨"alarm", .structure alarmDesc⟩, ⟨"timeStamp", .structure timestampDesc⟩,
      ⟨"display", .structure displayDesc⟩]⟩

def ntEnumDesc : StructureDesc :=
  ⟨some "epics:nt/NTEnum:1.0",
    [⟨"value", .structure enumDesc⟩, ⟨"alarm", .structure alarmDesc⟩, ⟨"timeStamp", .structure timestampDesc⟩]⟩

def structIdOf (structId : String) : Option String := if structId.isEmpty then none else some structId

mutual

def pvValueFieldType : PvValue → FieldType
  | .scalar sv => scalarFieldType sv
  | .scalarArray sa => scalarArrayFieldType sa
  | .structure structId fields => .structure ⟨structIdOf structId, pvFieldDescs fields⟩

def pvFieldDescs : List (String × PvValue) → List FieldDesc
  | [] => []
  | f :: fs => ⟨f.1, pvValueFieldType f.2⟩ :: pvFieldDescs fs

end

def pvValueDesc (structId : String) (fields : List (String × PvValue)) : StructureDesc :=
  ⟨structIdOf structId, pvFieldDescs fields⟩

def ntPayloadDesc : NtPayload → StructureDesc
  | .scalar nt => ntScalarDesc nt.value
  | .scalarArray nt => ntScalarArrayDesc nt.value
  | .table nt => ntTableDesc nt
  | .ndArray _ => ntNdarrayDesc
  | .enum _ => ntEnumDesc
  | .generic structId fields => pvValueDesc structId fields

mutual

def pvValueFieldCount : List (String × PvValue) → Nat
  | [] => 0
  | f :: fs => 1 + pvNestedCount f.2 + pvValueFieldCount fs

def pvNestedCount : PvValue → Nat
  | .structure _ nested => pvValueFieldCount nested
  | _ => 0

end

/-- The number of field bits of a payload's descriptor, without building it:
the fixed shapes are counted on a stand-in, and a column of a table adds one. -/
def ntPayloadFieldCount : NtPayload → Nat
  | .scalar _ => countStructureFields (ntScalarDesc (.i32 0))
  | .scalarArray _ => countStructureFields (ntScalarArrayDesc (.i32 []))
  | .ndArray _ => countStructureFields ntNdarrayDesc
  | .enum _ => countStructureFields ntEnumDesc
  | .table nt => countStructureFields (ntTableDesc { labels := [], columns := [] }) + nt.columns.length
  | .generic _ fields => pvValueFieldCount fields

theorem countNested_scalar (v : ScalarValue) : countNested (scalarFieldType v) = 0 := by cases v <;> rfl

theorem countNested_scalarArray (v : ScalarArrayValue) : countNested (scalarArrayFieldType v) = 0 := by cases v <;> rfl

theorem countFields_columns (columns : List NtTableColumn) : countFields (columns.map columnDesc) = columns.length := by
  induction columns with
  | nil => rfl
  | cons col columns ih =>
    rw [List.map_cons, countFields, columnDesc, countNested_scalarArray, ih, List.length_cons]
    omega

mutual

theorem pvValueFieldCount_eq : ∀ fields : List (String × PvValue), pvValueFieldCount fields = countFields (pvFieldDescs fields)
  | [] => rfl
  | f :: fs => by
    rw [pvValueFieldCount, pvFieldDescs, countFields, pvNestedCount_eq f.2, pvValueFieldCount_eq fs]

theorem pvNestedCount_eq : ∀ v : PvValue, pvNestedCount v = countNested (pvValueFieldType v)
  | .scalar v => (countNested_scalar v).symm
  | .scalarArray v => (countNested_scalarArray v).symm
  | .structure _ fields => pvValueFieldCount_eq fields

end

theorem ntPayloadFieldCount_eq (p : NtPayload) : ntPayloadFieldCount p = countStructureFields (ntPayloadDesc p) := by
  cases p with
  | scalar nt =>
    simp only [ntPayloadFieldCount, ntPayloadDesc, countStructureFields, ntScalarDesc, countFields, countNested_scalar]
  | scalarArray nt =>
    simp only [ntPayloadFieldCount, ntPayloadDesc, countStructureFields, ntScalarArrayDesc, countFields,
      countNested_scalarArray]
  | table nt =>
    simp only [ntPayloadFieldCount, ntPayloadDesc, countStructureFields, ntTableDesc, countFields, countNested,
      countFields_columns, List.length_nil]
    omega
  | ndArray _ | enum _ => rfl
  | generic structId fields => exact pvValueFieldCount_eq fields

end Spvirit
