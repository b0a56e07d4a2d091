import Spvirit.Payload.Equality

/-! The records of the store and the four ways to write one. -/

namespace Spvirit

def ScalarArrayValue.len (v : ScalarArrayValue) : Nat := v.items.length

def ScalarArrayValue.truncate (n : Nat) : ScalarArrayValue → ScalarArrayValue
  | .bool v => .bool (v.take n)
  | .i8 v => .i8 (v.take n)
  | .i16 v => .i16 (v.take n)
  | .i32 v => .i32 (v.take n)
  | .i64 v => .i64 (v.take n)
  | .u8 v => .u8 (v.take n)
  | .u16 v => .u16 (v.take n)
  | .u32 v => .u32 (v.take n)
  | .u64 v => .u64 (v.take n)
  | .f32 v => .f32 (v.take n)
  | .f64 v => .f64 (v.take n)
  | .str v => .str (v.take n)

/-- All columns have the length of the first. -/
def NtTable.valid (t : NtTable) : Bool :=
  match t.columns with
  | [] => true
  | first :: rest => rest.all fun c => c.values.len = first.values.len

/-- What a record holds. The six kinds of scalar records differ in fields no write
reads, and so do the four kinds of array records. -/
inductive RecordData where
  | scalar (nt : NtScalar)
  | array (nt : NtScalarArray) (nelm nord : Nat)
  | ntTable (nt : NtTable)
  | ntNdArray (nt : NtNdArray)
  | ntEnum (nt : NtEnum)
  | generic (structId : String) (fields : List (String × PvValue))

/-- A record. Whether clients may write it depends on its kind only, which no write changes. -/
structure RecordInstance where
  data : RecordData
  writable : Bool
  /-- The monitor deadband. -/
  mdel : F64

/-- Above zero: neither negative nor NaN. -/
def F64.positive (x : F64) : Bool := 0 < x.bits && x.bits ≤ 0x7FF0000000000000

structure PutOutcome where
  valueChanged : Bool
  clientStamped : Bool

/-- The parts of a write that look into values: conversions, limits, the fields of
a client's PUT. -/
structure RecordOps where
  computeAlarms : Bool
  /-- The value in the type of the one it replaces, if it can be represented. -/
  coerceInto : ScalarValue → ScalarValue → Option ScalarValue
  updateAlarmFromValue : NtScalar → NtScalar
  ndArrayValid : NtNdArray → Bool
  /-- The data fields of a PUT: the record's new data and whether anything changed. -/
  applyPutFields : RecordData → DecodedValue → Except String (RecordData × Bool)
  clientTimestamp : DecodedValue → Option NtTimeStamp
  clientDataTimestamp : DecodedValue → Option NtTimeStamp
  validator : DecodedValue → Except String Unit
  scalarAsF64 : ScalarValue → Option F64
  /-- The two values are less than the deadband apart. -/
  nearer : F64 → F64 → F64 → Bool

namespace RecordData

def payload : RecordData → NtPayload
  | .scalar nt => .scalar nt
  | .array nt _ _ => .scalarArray nt
  | .ntTable nt => .table nt
  | .ntNdArray nt => .ndArray nt
  | .ntEnum nt => .enum nt
  | .generic structId fields => .generic structId fields

/-- What links and the field `VAL` show of a record: its scalar, or how much it holds. -/
def currentValue : RecordData → ScalarValue
  | .scalar nt => nt.value
  | .array nt _ _ => .i32 (Int32.ofNat nt.value.len)
  | .ntTable nt => .i32 (Int32.ofNat nt.columns.length)
  | .ntNdArray nt => .i32 (Int32.ofNat nt.dimension.length)
  | .ntEnum nt => .i32 nt.index
  | .generic _ fields => .i32 (Int32.ofNat fields.length)

def setTimeStamp (ts : NtTimeStamp) : RecordData → RecordData
  | .scalar nt => .scalar { nt with timeStamp := some ts }
  | .array nt nelm nord => .array { nt with timeStamp := ts } nelm nord
  | .ntTable nt => .ntTable { nt with timeStamp := some ts }
  | .ntNdArray nt => .ntNdArray { nt with timeStamp := some ts, dataTimeStamp := ts }
  | .ntEnum nt => .ntEnum { nt with timeStamp := ts }
  | .generic structId fields => .generic structId fields

/-- The index an enumeration is set to: unsigned and other values set none. -/
def enumIndex : ScalarValue → Option Int32
  | .i32 i => some i
  | .i16 i => some i.toInt32
  | .i8 i => some i.toInt32
  | .i64 i => some i.toInt32
  | _ => none

section

variable (ops : RecordOps) (now : NtTimeStamp)

/-- The new data and whether it changed. A value that cannot be represented is refused. -/
def trySetScalarValue (value : ScalarValue) : RecordData → Option (RecordData × Bool)
  | .ntEnum nt =>
    match enumIndex value with
    | none => some (.ntEnum nt, false)
    | some idx =>
      if idx < 0 ∨ nt.choices.length ≤ idx.toInt.toNat then some (.ntEnum nt, false)
      else if nt.index = idx then some (.ntEnum nt, false)
      else some (.ntEnum { nt with index := idx, timeStamp := now }, true)
  | .scalar nt =>
    match ops.coerceInto nt.value value with
    | none => none
    | some next =>
      if nt.value.eq next then some (.scalar nt, false)
      else
        let stamped := { nt with value := next, timeStamp := some now }
        some (.scalar (if ops.computeAlarms then ops.updateAlarmFromValue stamped else stamped), true)
  | d => some (d, false)

def setArrayValue (value : ScalarArrayValue) : RecordData → RecordData × Bool
  | .ntNdArray nt =>
    if nt.value.eq value then (.ntNdArray nt, false)
    else (.ntNdArray { nt with value := value, timeStamp := some now, dataTimeStamp := now }, true)
  | .array nt nelm nord =>
    let next := value.truncate nelm
    if nt.value.eq next then (.array nt nelm nord, false)
    else (.array { nt with value := next, timeStamp := now } nelm next.len, true)
  | d => (d, false)

/-- A payload of the record's own kind replaces what it holds. The time stamp is the
payload's own if it has one. -/
def setNtPayload : RecordData → NtPayload → RecordData × Bool
  | .scalar nt, .scalar next =>
    if nt.eq next then (.scalar nt, false)
    else (.scalar { next with timeStamp := some (next.timeStamp.getD now) }, true)
  | .array nt nelm nord, .scalarArray next =>
    let next := { next with value := next.value.truncate nelm }
    if nt.eq next then (.array nt nelm nord, false)
    else (.array { next with timeStamp := if next.timeStamp = {} then now else next.timeStamp } nelm next.value.len, true)
  | .ntTable nt, .table next =>
    if ¬ next.valid ∨ nt.eq next then (.ntTable nt, false)
    else (.ntTable { next with timeStamp := some (next.timeStamp.getD now) }, true)
  | .ntNdArray nt, .ndArray next =>
    if ¬ ops.ndArrayValid next ∨ nt.eq next then (.ntNdArray nt, false)
    else
      (.ntNdArray { next with
        timeStamp := some (next.timeStamp.getD now)
        dataTimeStamp := if next.dataTimeStamp = {} then now else next.dataTimeStamp }, true)
  | .ntEnum nt, .enum next =>
    if nt = next then (.ntEnum nt, false)
    else (.ntEnum { next with timeStamp := if next.timeStamp = {} then now else next.timeStamp }, true)
  | .generic structId fields, .generic nextId nextFields =>
    if structId = nextId ∧ pvFieldsEq fields nextFields then (.generic structId fields, false)
    else (.generic nextId nextFields, true)
  | d, _ => (d, false)

/-- A client's PUT. A bare value stands for a structure with it as its `value`. The
record is stamped whether it changed or not. An error is the bare reason: the record's
name, which the source puts in front of it, is the store's. -/
def applyPut (value : DecodedValue) (d : RecordData) : Except String (RecordData × PutOutcome) := do
  let body : DecodedValue := match value with
    | .structure fields => .structure fields
    | other => .structure [("value", other)]
  let (d, changed) ← ops.applyPutFields d body
  let d := d.setTimeStamp ((ops.clientTimestamp body).getD now)
  let d := match d, ops.clientDataTimestamp body with
    | .ntNdArray nt, some ts => .ntNdArray { nt with dataTimeStamp := ts }
    | d, _ => d
  return (d, ⟨changed, (ops.clientTimestamp body).isSome⟩)

end

def alarmSeverity : RecordData → Int32
  | .scalar nt => nt.alarmSeverity
  | _ => 0

end RecordData

end Spvirit
