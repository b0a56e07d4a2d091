import Spvirit.Codec.Types

/-! The payloads of process variables: scalars, arrays and the normative types. -/

namespace Spvirit

inductive ScalarValue where
  | bool (v : Bool)
  | i8 (v : Int8)
  | i16 (v : Int16)
  | i32 (v : Int32)
  | i64 (v : Int64)
  | u8 (v : UInt8)
  | u16 (v : UInt16)
  | u32 (v : UInt32)
  | u64 (v : UInt64)
  | f32 (v : F32)
  | f64 (v : F64)
  | str (s : String)
  deriving DecidableEq, Repr

inductive ScalarArrayValue where
  | bool (v : List Bool)
  | i8 (v : List Int8)
  | i16 (v : List Int16)
  | i32 (v : List Int32)
  | i64 (v : List Int64)
  | u8 (v : List UInt8)
  | u16 (v : List UInt16)
  | u32 (v : List UInt32)
  | u64 (v : List UInt64)
  | f32 (v : List F32)
  | f64 (v : List F64)
  | str (v : List String)
  deriving DecidableEq, Repr

/-- The elements of an array, each with its type. -/
def ScalarArrayValue.items : ScalarArrayValue → List ScalarValue
  | .bool v => v.map .bool
  | .i8 v => v.map .i8
  | .i16 v => v.map .i16
  | .i32 v => v.map .i32
  | .i64 v => v.map .i64
  | .u8 v => v.map .u8
  | .u16 v => v.map .u16
  | .u32 v => v.map .u32
  | .u64 v => v.map .u64
  | .f32 v => v.map .f32
  | .f64 v => v.map .f64
  | .str v => v.map .str

structure NtAlarm where
  severity : Int32 := 0
  status : Int32 := 0
  message : String := ""
  deriving DecidableEq, Repr

structure NtTimeStamp where
  secondsPastEpoch : Int64 := 0
  nanoseconds : Int32 := 0
  userTag : Int32 := 0
  deriving DecidableEq, Repr

structure NtDisplay where
  limitLow : F64 := ⟨0⟩
  limitHigh : F64 := ⟨0⟩
  description : String := ""
  units : String := ""
  precision : Int32 := 0
  deriving DecidableEq, Repr

structure NtControl where
  limitLow : F64 := ⟨0⟩
  limitHigh : F64 := ⟨0⟩
  minStep : F64 := ⟨0⟩
  deriving DecidableEq, Repr

/-- An empty `displayFormChoices` stands for the standard ones. Without a time
stamp of its own the value is stamped when it is encoded. -/
structure NtScalar where
  value : ScalarValue
  alarmSeverity : Int32 := 0
  alarmStatus : Int32 := 0
  alarmMessage : String := ""
  alarmLow : Option F64 := none
  alarmHigh : Option F64 := none
  alarmLolo : Option F64 := none
  alarmHihi : Option F64 := none
  displayLow : F64 := ⟨0⟩
  displayHigh : F64 := ⟨0⟩
  displayDescription : String := ""
  displayPrecision : Int32 := 0
  displayFormIndex : Int32 := 0
  displayFormChoices : List String := []
  controlLow : F64 := ⟨0⟩
  controlHigh : F64 := ⟨0⟩
  controlMinStep : F64 := ⟨0⟩
  units : String := ""
  valueAlarmActive : Bool := false
  valueAlarmLowAlarmLimit : F64 := ⟨0⟩
  valueAlarmLowWarningLimit : F64 := ⟨0⟩
  valueAlarmHighWarningLimit : F64 := ⟨0⟩
  valueAlarmHighAlarmLimit : F64 := ⟨0⟩
  valueAlarmLowAlarmSeverity : Int32 := 0
  valueAlarmLowWarningSeverity : Int32 := 0
  valueAlarmHighWarningSeverity : Int32 := 0
  valueAlarmHighAlarmSeverity : Int32 := 0
  valueAlarmHysteresis : UInt8 := 0
  timeStamp : Option NtTimeStamp := none
  deriving DecidableEq, Repr

structure NtScalarArray where
  value : ScalarArrayValue
  alarm : NtAlarm := {}
  timeStamp : NtTimeStamp := {}
  display : NtDisplay := {}
  control : NtControl := {}
  deriving DecidableEq, Repr

structure NtTableColumn where
  name : String
  values : ScalarArrayValue
  deriving DecidableEq, Repr

structure NtTable where
  labels : List String
  columns : List NtTableColumn
  descriptor : Option String := none
  alarm : Option NtAlarm := none
  timeStamp : Option NtTimeStamp := none
  deriving DecidableEq, Repr

/-- A map from strings to strings: its entries in some order of iteration, one for each key. -/
structure StringMap where
  entries : List (String × String)
  distinct : (entries.map Prod.fst).Nodup

namespace StringMap

def keys (m : StringMap) : List String := m.entries.map Prod.fst

def get (m : StringMap) (key : String) : Option String := (m.entries.find? fun e => e.1 = key).map Prod.snd

def sortedKeys (m : StringMap) : List String := m.keys.mergeSort fun a b => a ≤ b

/-- The entry of every key is equal. -/
def eq (m m' : StringMap) : Bool :=
  m.entries.length = m'.entries.length && m.entries.all fun e => m'.get e.1 = some e.2

end StringMap

structure NdCodec where
  name : String
  parameters : StringMap

structure NdDimension where
  size : Int32
  offset : Int32
  fullSize : Int32
  binning : Int32
  reverse : Bool
  deriving DecidableEq, Repr

structure NtAttribute where
  name : String
  value : ScalarValue
  descriptor : String
  sourceType : Int32
  source : String
  deriving DecidableEq, Repr

structure NtNdArray where
  value : ScalarArrayValue
  codec : NdCodec
  compressedSize : Int64
  uncompressedSize : Int64
  dimension : List NdDimension
  uniqueId : Int32
  dataTimeStamp : NtTimeStamp
  attributes : List NtAttribute
  descriptor : Option String := none
  alarm : Option NtAlarm := none
  timeStamp : Option NtTimeStamp := none
  display : Option NtDisplay := none

structure NtEnum where
  index : Int32
  choices : List String
  alarm : NtAlarm := {}
  timeStamp : NtTimeStamp := {}
  deriving DecidableEq, Repr

inductive PvValue where
  | scalar (v : ScalarValue)
  | scalarArray (v : ScalarArrayValue)
  | structure (structId : String) (fields : List (String × PvValue))

inductive NtPayload where
  | scalar (nt : NtScalar)
  | scalarArray (nt : NtScalarArray)
  | table (nt : NtTable)
  | ndArray (nt : NtNdArray)
  | enum (nt : NtEnum)
  | generic (structId : String) (fields : List (String × PvValue))

def standardFormChoices : List String :=
  ["Default", "String", "Binary", "Decimal", "Hex", "Exponential", "Engineering"]

end Spvirit
