import Mathlib.Tactic

/-! Alarm severities and conditions of the IOC engine. -/

namespace Spvirit.Ioc

inductive Severity where
  | noAlarm
  | minor
  | major
  | invalid
  deriving DecidableEq, Repr

namespace Severity

def asI32 : Severity → Int32
  | noAlarm => 0
  | minor => 1
  | major => 2
  | invalid => 3

/-- The discriminant orders the severities. -/
def rank : Severity → Nat
  | noAlarm => 0
  | minor => 1
  | major => 2
  | invalid => 3

theorem rank_injective : Function.Injective rank := by
  intro a b same
  cases a <;> cases b <;> first | rfl | cases same

instance : LinearOrder Severity := LinearOrder.lift' rank rank_injective

theorem noAlarm_le (a : Severity) : noAlarm ≤ a := Nat.zero_le (rank a)

theorem noAlarm_lt {a : Severity} (raised : a ≠ noAlarm) : noAlarm < a := lt_of_le_of_ne (noAlarm_le a) raised.symm

end Severity

inductive Condition where
  | noAlarm
  | read
  | write
  | hiHi
  | high
  | loLo
  | low
  | state
  | cos
  | comm
  | timeout
  | hwLimit
  | calc
  | scan
  | link
  | soft
  | badSub
  | udf
  | disable
  | simm
  | readAccess
  | writeAccess
  deriving DecidableEq, Repr

namespace Condition

/-- Every condition, in declaration order. -/
def all : List Condition :=
  [noAlarm, read, write, hiHi, high, loLo, low, state, cos, comm, timeout, hwLimit, .calc, scan, link, soft, badSub, udf,
    disable, simm, readAccess, writeAccess]

def asI32 (c : Condition) : Int32 := .ofNat (all.idxOf c)

def epicsString : Condition → String
  | noAlarm => "NO_ALARM"
  | read => "READ"
  | write => "WRITE"
  | hiHi => "HIHI"
  | high => "HIGH"
  | loLo => "LOLO"
  | low => "LOW"
  | state => "STATE"
  | cos => "COS"
  | comm => "COMM"
  | timeout => "TIMEOUT"
  | hwLimit => "HWLIMIT"
  | .calc => "CALC"
  | scan => "SCAN"
  | link => "LINK"
  | soft => "SOFT"
  | badSub => "BAD_SUB"
  | udf => "UDF"
  | disable => "DISABLE"
  | simm => "SIMM"
  | readAccess => "READ_ACCESS"
  | writeAccess => "WRITE_ACCESS"

def pvaStatus : Condition → Int32
  | noAlarm => 0
  | read | write | hiHi | high | loLo | low | state | cos | comm | timeout | hwLimit => 1
  | .calc | scan | link | soft | badSub | disable | simm => 3
  | udf => 6
  | readAccess | writeAccess => 7

end Condition

/-- Severity, status and message of the alarm structure. -/
def toNtAlarm (sev : Severity) (cond : Condition) : Int32 × Int32 × String :=
  if cond = .noAlarm then (sev.asI32, 0, "") else (sev.asI32, cond.pvaStatus, cond.epicsString)

abbrev Alarm := Severity × Condition

def Alarm.clear : Alarm := (.noAlarm, .noAlarm)

/-- A pending alarm is only ever raised, and the condition moves with the severity. -/
def Alarm.raise (pending : Alarm) (contribution : Alarm) : Alarm :=
  if pending.1 < contribution.1 then contribution else pending

/-- The first contribution of the greatest severity, and no alarm if there is none. -/
def Alarm.worst : List Alarm → Alarm
  | [] => .clear
  | c :: rest => if (worst rest).1 ≤ c.1 then c else worst rest

namespace Alarm

theorem worst_append_singleton (c : Alarm) (raised : c.1 ≠ .noAlarm) (cs : List Alarm) :
    worst (cs ++ [c]) = (worst cs).raise c := by
  induction cs with
  | nil =>
    have least := Severity.noAlarm_lt raised
    simp [worst, raise, clear, least, least.le]
  | cons d rest ih =>
    simp only [List.cons_append, worst, ih, raise]
    split_ifs with h₁ h₂ h₃ h₄ h₅ h₆ <;> first | rfl | (exfalso; order)

end Alarm

end Spvirit.Ioc
