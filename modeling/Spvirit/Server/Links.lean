import Spvirit.Foundation.Worklist
import Spvirit.Payload.Descriptors
import Spvirit.Server.Store

/-! Links of the store: a variable computed from others. A write that changes a variable
evaluates the links it feeds, and theirs in turn, from a stack with a visited set. -/

namespace Spvirit

namespace RecordData

/-- The value a record holds once it is set to `v`, if `v` is representable in it. -/
def accept (ops : RecordOps) (v : ScalarValue) : RecordData → Option ScalarValue
  | .scalar nt => ops.coerceInto nt.value v
  | .ntEnum nt =>
    match enumIndex v with
    | none => none
    | some idx => if idx < 0 ∨ nt.choices.length ≤ idx.toInt.toNat then none else some (.i32 idx)
  | _ => none

end RecordData

namespace Store

/-- What conversion takes from texts and floats. -/
structure Conversions where
  parseBoolLike : String → Option Bool
  parseI32 : String → Option Int32
  parseF64 : String → Option F64
  scalarToString : ScalarValue → String
  ofInt : Int → F64
  widen : F32 → F64
  narrow : F64 → F32
  /-- The whole part of a finite number. -/
  truncate : F64 → Option Int
  /-- The first is not below the second, and neither is NaN. -/
  ge : F64 → F64 → Bool

namespace Conversions

variable (c : Conversions)

def asI128 : ScalarValue → Option Int
  | .bool v => some (if v then 1 else 0)
  | .i8 v => some v.toInt
  | .i16 v => some v.toInt
  | .i32 v => some v.toInt
  | .i64 v => some v.toInt
  | .u8 v => some v.toNat
  | .u16 v => some v.toNat
  | .u32 v => some v.toNat
  | .u64 v => some v.toNat
  | .f32 _ | .f64 _ | .str _ => none

def asF64 : ScalarValue → Option F64
  | .f32 v => some (c.widen v)
  | .f64 v => some v
  | .str _ => none
  | v => (asI128 v).map c.ofInt

/-- The whole number in the type of an integer, if it fits. -/
def intInto (i : Int) : ScalarValue → Option ScalarValue
  | .i8 _ => if -2 ^ 7 ≤ i ∧ i < 2 ^ 7 then some (.i8 (.ofInt i)) else none
  | .i16 _ => if -2 ^ 15 ≤ i ∧ i < 2 ^ 15 then some (.i16 (.ofInt i)) else none
  | .i32 _ => if -2 ^ 31 ≤ i ∧ i < 2 ^ 31 then some (.i32 (.ofInt i)) else none
  | .i64 _ => if -2 ^ 63 ≤ i ∧ i < 2 ^ 63 then some (.i64 (.ofInt i)) else none
  | .u8 _ => if 0 ≤ i ∧ i < 2 ^ 8 then some (.u8 (.ofNat i.toNat)) else none
  | .u16 _ => if 0 ≤ i ∧ i < 2 ^ 16 then some (.u16 (.ofNat i.toNat)) else none
  | .u32 _ => if 0 ≤ i ∧ i < 2 ^ 32 then some (.u32 (.ofNat i.toNat)) else none
  | .u64 _ => if 0 ≤ i ∧ i < 2 ^ 64 then some (.u64 (.ofNat i.toNat)) else none
  | _ => none

def coerceCrossVariant (target : ScalarValue) : ScalarValue → Option ScalarValue
  | .str s =>
    match target with
    | .bool _ => (c.parseBoolLike s).map .bool
    | .i32 _ => (c.parseI32 s).map .i32
    | .f64 _ => (c.parseF64 s).map .f64
    | _ => none
  | v =>
    match target with
    | .str _ => some (.str (c.scalarToString v))
    | .bool _ =>
      match asI128 v with
      | some i => some (.bool (i ≠ 0))
      | none => (c.asF64 v).map fun f => .bool (¬ f.eq ⟨0⟩)
    | .f64 _ => (c.asF64 v).map .f64
    | .f32 _ => (c.asF64 v).map fun f => .f32 (c.narrow f)
    | target => ((asI128 v) <|> (c.asF64 v).bind c.truncate).bind fun i => intInto i target

def coerceInto (target incoming : ScalarValue) : Option ScalarValue :=
  if scalarValueTypeCode target = scalarValueTypeCode incoming then some incoming else c.coerceCrossVariant target incoming

/-- The limits in the order they are looked at; the first that is passed sets the alarm. -/
def limitAlarm (nt : NtScalar) (value : F64) : Int32 × String :=
  if nt.alarmHihi.any (c.ge value) then (2, "HIHI")
  else if nt.alarmHigh.any (c.ge value) then (1, "HIGH")
  else if nt.alarmLolo.any (c.ge · value) then (2, "LOLO")
  else if nt.alarmLow.any (c.ge · value) then (1, "LOW")
  else (0, "")

def updateAlarmFromValue (nt : NtScalar) : NtScalar :=
  let (severity, message) :=
    match nt.value with
    | .bool _ | .str _ => (0, "")
    | v => ((c.asF64 v).map (c.limitAlarm nt)).getD (0, "")
  { nt with alarmSeverity := severity, alarmStatus := if severity = 0 then 0 else 1, alarmMessage := message }

/-- A store that converts and sets alarms so. -/
def linkOps (rest : RecordOps) : RecordOps :=
  { rest with coerceInto := c.coerceInto, updateAlarmFromValue := c.updateAlarmFromValue }

end Conversions

/-- Conversion looks at the type of the value it replaces only and keeps it. An alarm
leaves the value as it is. -/
class LawfulOps (ops : RecordOps) : Prop where
  coerce_kind : ∀ old v next, ops.coerceInto old v = some next → ∀ w, ops.coerceInto next w = ops.coerceInto old w
  alarm_value : ∀ nt, (ops.updateAlarmFromValue nt).value = nt.value

structure LinkDef where
  output : String
  inputs : List String
  compute : List ScalarValue → ScalarValue

inductive SetOutcome where
  | changed
  | unchanged
  | refused
  | notFound
deriving DecidableEq

/-- The variables of the store, and how often its writers have read the clock. -/
structure Pvs where
  entry : String → Option Stored
  reads : Nat

section

variable (ops : RecordOps) (clock : Nat → NtTimeStamp)

def setValueOutcome (name : String) (value : ScalarValue) (pvs : Pvs) : Pvs × SetOutcome :=
  match pvs.entry name with
  | none => (pvs, .notFound)
  | some e =>
    match e.record.data.trySetScalarValue ops (clock pvs.reads) value with
    | none => (pvs, .refused)
    | some (_, changed) =>
      let stored := ((Writer.setValue value).write ops (clock pvs.reads) e).1
      (⟨Function.update pvs.entry name (some stored), pvs.reads + 1⟩, if changed then .changed else .unchanged)

/-- The current values of the inputs. An input that does not exist counts as zero. -/
def inputValues (pvs : Pvs) (l : LinkDef) : List ScalarValue :=
  l.inputs.map fun n => ((pvs.entry n).map fun e => e.record.data.currentValue).getD (.f64 ⟨0⟩)

def evaluate (l : LinkDef) (pvs : Pvs) : Pvs × Bool :=
  let (pvs, outcome) := setValueOutcome ops clock l.output (l.compute (inputValues pvs l)) pvs
  (pvs, outcome = .changed)

/-- A link with the variable among its inputs is evaluated. If its output changes it is pushed. -/
def visitLink (pv : String) (r : Pvs × List String) (l : LinkDef) : Pvs × List String :=
  if pv ∈ l.inputs then
    let (pvs, changed) := evaluate ops clock l r.1
    (pvs, if changed then l.output :: r.2 else r.2)
  else r

variable (links : List LinkDef)

def visit (pv : String) (pvs : Pvs) : Pvs × List String := links.foldl (visitLink ops clock pv) (pvs, [])

/-- As many pops as the queue can need: every name is visited once and pushes each link at most. -/
def popsFor : Nat := 1 + links.length * (links.length + 1)

def evaluateLinks (changedPv : String) (pvs : Pvs) : Worklist Pvs String :=
  Worklist.run (visit ops clock links) (popsFor links) ⟨pvs, [changedPv], []⟩

def setValue (name : String) (value : ScalarValue) (pvs : Pvs) : Pvs × Bool :=
  let (pvs, outcome) := setValueOutcome ops clock name value pvs
  (if outcome = .changed then (evaluateLinks ops clock links name pvs).state else pvs, outcome = .changed)

end

/-- The output holds what the link computes from the current values of its inputs. -/
def Consistent (ops : RecordOps) (pvs : Pvs) (l : LinkDef) : Prop :=
  ∃ e next, pvs.entry l.output = some e ∧ e.record.data.accept ops (l.compute (inputValues pvs l)) = some next ∧
    (e.record.data.currentValue = next ∨ e.record.data.currentValue.eq next = true)

/-- The links a change of the variable can reach. -/
inductive Downstream (links : List LinkDef) (name : String) : LinkDef → Prop
  | direct {l : LinkDef} (member : l ∈ links) (input : name ∈ l.inputs) : Downstream links name l
  | next {l m : LinkDef} (above : Downstream links name l) (member : m ∈ links) (input : l.output ∈ m.inputs) :
    Downstream links name m

/-- Every output exists and represents whatever its link computes. -/
def Representable (ops : RecordOps) (links : List LinkDef) (pvs : Pvs) : Prop :=
  ∀ l ∈ links, ∃ e, pvs.entry l.output = some e ∧ ∀ values, (e.record.data.accept ops (l.compute values)).isSome

/-- No link is downstream of its own output, and no two have one output. -/
structure Acyclic (links : List LinkDef) : Prop where
  no_cycle : ∀ l ∈ links, ¬ Downstream links l.output l
  distinct : (links.map LinkDef.output).Nodup

/-- The links evaluated by a write. -/
def walk (ops : RecordOps) (clock : Nat → NtTimeStamp) (links : List LinkDef) (name : String) (value : ScalarValue) (pvs : Pvs) :
    Worklist Pvs String :=
  let (pvs, outcome) := setValueOutcome ops clock name value pvs
  if outcome = .changed then evaluateLinks ops clock links name pvs else ⟨pvs, [], []⟩

/-- No variable that a link reads changes once it has been visited, when it would be
skipped as part of a cycle. -/
def Timely (ops : RecordOps) (clock : Nat → NtTimeStamp) (links : List LinkDef) (name : String) (value : ScalarValue) (pvs : Pvs) :
    Prop :=
  (setValueOutcome ops clock name value pvs).2 = .changed →
    Worklist.fresh (fun pv => links.any (pv ∈ ·.inputs)) (visit ops clock links) (popsFor links)
      ⟨(setValueOutcome ops clock name value pvs).1, [name], []⟩ = true

end Store

end Spvirit
