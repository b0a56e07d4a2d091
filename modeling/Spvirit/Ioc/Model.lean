import Spvirit.Ioc.Alarm
import Spvirit.Ioc.Fields
import Spvirit.Ioc.Float

/-! The records that the IOC engine processes. -/

namespace Spvirit.Ioc

def Kind.isOutput : Kind → Bool
  | .ao | .bo | .longOut => true
  | .ai | .bi | .longIn => false

/-- The kinds with alarm limits. -/
def Kind.isAnalogue : Kind → Bool
  | .ai | .ao | .longIn | .longOut => true
  | .bi | .bo => false

namespace Value

def asF64 : Value → F64
  | double v => v
  | long v => .ofInt v.toInt
  | enum v => .ofInt v.toNat

def asI32 : Value → Int32
  | double v => v.roundI32
  | long v => v
  | enum v => .ofNat v.toNat

/-- The value in the native type of the kind. -/
def coerceTo (v : Value) (kind : Kind) : Value := Ioc.coerceTo v.asF64 v.asI32 kind

def defaultFor : Kind → Value
  | .ai | .ao => double ⟨0⟩
  | .longIn | .longOut => long 0
  | .bi | .bo => enum 0

/-- Derived equality: numbers are compared as floating-point numbers. -/
def eq : Value → Value → Bool
  | double v, double w => v.eq w
  | long v, long w => v = w
  | enum v, enum w => v = w
  | _, _ => false

end Value

namespace Engine

/-- The fields that a link can name. -/
inductive Field where
  | val
  | sevr
  | stat
  | disa
  | disv
  | hihi
  | high
  | low
  | lolo
  | proc
  deriving DecidableEq, Repr

/-- A link of a record. Its target is a name as the database is read, and the place of a
record once the database is built. -/
inductive Link (τ : Type) where
  | constant (v : Value)
  | db (target : τ) (field : Field) (processPassive maximizeSeverity : Bool)
  | unresolved (name : String)
  deriving DecidableEq

def Link.isConstant {τ : Type} : Link τ → Bool
  | .constant _ => true
  | .db .. | .unresolved _ => false

/-- What a record is configured with. Processing writes none of these fields. -/
structure Config (τ : Type) where
  name : String
  kind : Kind
  desc : String := ""
  egu : String := ""
  scanRaw : String := "Passive"
  evnt : String := ""
  pini : Bool := false
  phas : Int32 := 0
  diss : Severity := .noAlarm
  sdis : Link τ := .constant (.long 0)
  flnk : Link τ := .constant (.long 0)
  tpro : Bool := false
  inp : Link τ := .constant (.long 0)
  out : Link τ := .constant (.long 0)
  dol : Link τ := .constant (.long 0)
  closedLoop : Bool := false
  hhsv : Severity := .noAlarm
  hsv : Severity := .noAlarm
  lsv : Severity := .noAlarm
  llsv : Severity := .noAlarm
  hyst : F64 := ⟨0⟩
  mdel : F64 := ⟨0⟩
  adel : F64 := ⟨0⟩
  configured : Bool := false

/-- What processing changes of a record. -/
structure Cells where
  val : Value := .long 0
  prevVal : Value := .long 0
  prevArchiveVal : Value := .long 0
  prevSevr : Severity := .noAlarm
  prevStat : Condition := .noAlarm
  pact : Bool := false
  disa : Int32 := 0
  disv : Int32 := 1
  udf : Bool := true
  sevr : Severity := .noAlarm
  stat : Condition := .noAlarm
  nsev : Severity := .noAlarm
  nsta : Condition := .noAlarm
  hihi : F64 := ⟨0⟩
  high : F64 := ⟨0⟩
  low : F64 := ⟨0⟩
  lolo : F64 := ⟨0⟩
  timeNs : Nat := 0
  deriving DecidableEq

namespace Cells

/-- The alarm that the pass has raised so far. -/
def pending (c : Cells) : Alarm := (c.nsev, c.nsta)

def alarm (c : Cells) : Alarm := (c.sevr, c.stat)

/-- `recGblSetSevr`: whether the pending alarm was raised. -/
def setSevr (sev : Severity) (cond : Condition) (c : Cells) : Bool × Cells :=
  if c.nsev < sev then (true, { c with nsev := sev, nsta := cond }) else (false, c)

/-- `recGblResetAlarms`: whether the committed alarm changed. -/
def resetAlarms (c : Cells) : Bool × Cells :=
  (c.sevr ≠ c.nsev || c.stat ≠ c.nsta,
    { c with sevr := c.nsev, stat := c.nsta, nsev := .noAlarm, nsta := .noAlarm })

def readField (c : Cells) : Field → Value
  | .val => c.val
  | .sevr => .long c.sevr.asI32
  | .stat => .long c.stat.asI32
  | .disa => .long c.disa
  | .disv => .long c.disv
  | .hihi => .double c.hihi
  | .high => .double c.high
  | .low => .double c.low
  | .lolo => .double c.lolo
  | .proc => .long 0

theorem pending_setSevr (sev : Severity) (cond : Condition) (c : Cells) :
    (c.setSevr sev cond).2.pending = c.pending.raise (sev, cond) := by
  unfold setSevr Alarm.raise pending
  split_ifs <;> rfl

end Cells

variable {τ : Type}

def toPayload (cfg : Config τ) (c : Cells) : NtScalar :=
  let value : ScalarValue := valueOf c.val
  let alarm := toNtAlarm c.sevr c.stat
  { value
    alarmSeverity := alarm.1
    alarmStatus := alarm.2.1
    alarmMessage := alarm.2.2
    displayDescription := cfg.desc
    units := cfg.egu
    alarmHihi := if cfg.configured then some c.hihi else none
    alarmHigh := if cfg.configured then some c.high else none
    alarmLow := if cfg.configured then some c.low else none
    alarmLolo := if cfg.configured then some c.lolo else none
    timeStamp :=
      if 0 < c.timeNs then
        some { secondsPastEpoch := .ofNat (c.timeNs / 1000000000), nanoseconds := .ofNat (c.timeNs % 1000000000), userTag := 0 }
      else none }

/-- One step of the limit ladder: the limit is crossed, or it was and the value has not cleared
it by more than the hysteresis. -/
def crossed (sev : Severity) (beyond held within : Bool) : Bool := sev ≠ .noAlarm && (beyond || held && within)

def limitCrossed (cfg : Config τ) (c : Cells) (value : F64) (current : Condition) : Option Alarm :=
  if crossed cfg.hhsv (c.hihi.le value) (current = .hiHi) ((c.hihi.sub cfg.hyst).le value) then some (cfg.hhsv, .hiHi)
  else if crossed cfg.llsv (value.le c.lolo) (current = .loLo) (value.le (c.lolo.add cfg.hyst)) then
    some (cfg.llsv, .loLo)
  else if crossed cfg.hsv (c.high.le value) (current = .high) ((c.high.sub cfg.hyst).le value) then
    some (cfg.hsv, .high)
  else if crossed cfg.lsv (value.le c.low) (current = .low) (value.le (c.low.add cfg.hyst)) then some (cfg.lsv, .low)
  else none

/-- The value moved further than `MDEL` from the last posted one. -/
def pastMdel (cfg : Config τ) (c : Cells) : Bool :=
  cfg.mdel.lt (c.val.asF64.sub c.prevVal.asF64).abs || !c.val.eq c.prevVal && cfg.mdel.eq ⟨0⟩

/-- The reference values each advance past their own deadband. -/
def advance (cfg : Config τ) (c : Cells) : Cells :=
  { c with
    prevVal := if pastMdel cfg c then c.val else c.prevVal
    prevArchiveVal :=
      if cfg.adel.lt (c.val.asF64.sub c.prevArchiveVal.asF64).abs then c.val else c.prevArchiveVal
    prevSevr := c.sevr
    prevStat := c.stat }

end Engine

end Spvirit.Ioc
