import Spvirit.Ioc.FloatOrder
import Spvirit.Ioc.Restored

/-! The limit ladder over several passes: what keeps an alarm in force. -/

namespace Spvirit.Ioc

namespace Condition

/-- The place of a condition in the ladder. -/
def rung : Condition → Nat
  | hiHi => 0
  | loLo => 1
  | high => 2
  | low => 3
  | _ => 4

/-- The limit is one from above. -/
def isUpper : Condition → Bool
  | hiHi | high => true
  | _ => false

end Condition

namespace Engine

/-- The conditions of the limit ladder, in the order of their tests. -/
def rungs : List Condition := [.hiHi, .loLo, .high, .low]

section

variable {τ : Type} (cfg : Config τ) (c : Cells)

def Config.severityOf : Condition → Severity
  | .hiHi => cfg.hhsv
  | .loLo => cfg.llsv
  | .high => cfg.hsv
  | .low => cfg.lsv
  | _ => .noAlarm

def Cells.limitOf : Condition → F64
  | .hiHi => c.hihi
  | .loLo => c.lolo
  | .high => c.high
  | .low => c.low
  | _ => ⟨0⟩

/-- The value is at the limit or beyond. -/
def beyond (C : Condition) : Bool :=
  if C.isUpper then (c.limitOf C).le c.val.asF64 else c.val.asF64.le (c.limitOf C)

/-- The test of an alarm that is in force. -/
def within (C : Condition) : Bool :=
  if C.isUpper then ((c.limitOf C).sub cfg.hyst).le c.val.asF64 else c.val.asF64.le ((c.limitOf C).add cfg.hyst)

def tested (C : Condition) : Bool := crossed (cfg.severityOf C) (beyond c C) (c.stat = C) (within cfg c C)

def ladderYields : Option Alarm := limitCrossed cfg c c.val.asF64 c.stat

def YieldsBy (C : Condition) : Prop := ∃ sev D, ladderYields cfg c = some (sev, D) ∧ D.rung ≤ C.rung

/-- The value has not cleared the limit by more than the hysteresis, in exact numbers. -/
def NotCleared (C : Condition) : Prop :=
  cfg.hyst.isInfinite = false →
    if C.isUpper then (c.limitOf C).exact - cfg.hyst.exact ≤ c.val.asF64.exact
    else c.val.asF64.exact ≤ (c.limitOf C).exact + cfg.hyst.exact

variable {cfg c}

theorem ladderYields_eq :
    ladderYields cfg c = (rungs.find? (tested cfg c)).map fun C => (cfg.severityOf C, C) := by
  change limitCrossed cfg c c.val.asF64 c.stat = _
  unfold limitCrossed
  simp only [rungs, List.find?_cons]
  change (if tested cfg c .hiHi then _ else if tested cfg c .loLo then _ else if tested cfg c .high then _
    else if tested cfg c .low then _ else _) = _
  cases tested cfg c .hiHi <;> cases tested cfg c .loLo <;> cases tested cfg c .high <;> cases tested cfg c .low <;> rfl

theorem find_le_iff {α : Type} {p : α → Bool} {rank : α → Nat} {l : List α} (ascending : l.Pairwise (rank · < rank ·))
    (k : Nat) : (∃ a, l.find? p = some a ∧ rank a ≤ k) ↔ ∃ a ∈ l, rank a ≤ k ∧ p a = true := by
  constructor
  · rintro ⟨a, found, bound⟩
    exact ⟨a, List.mem_of_find?_eq_some found, bound, List.find?_some found⟩
  · rintro ⟨a, member, bound, holds⟩
    induction l with
    | nil => cases member
    | cons b rest ih =>
      obtain ⟨below, ascending⟩ := List.pairwise_cons.mp ascending
      by_cases first : p b = true
      · refine ⟨b, List.find?_cons_of_pos first, ?_⟩
        rcases List.mem_cons.mp member with rfl | later
        · exact bound
        · exact (below a later).le.trans bound
      · rw [List.find?_cons_of_neg first]
        rcases List.mem_cons.mp member with rfl | later
        · exact absurd holds first
        · exact ih ascending later

theorem yieldsBy_iff {C : Condition} (member : C ∈ rungs) :
    YieldsBy cfg c C ↔ tested cfg c C = true ∨ ∃ D ∈ rungs, D.rung < C.rung ∧ tested cfg c D = true := by
  have ascending : rungs.Pairwise (Condition.rung · < Condition.rung ·) := by decide
  have apart : ∀ C ∈ rungs, ∀ D ∈ rungs, D.rung = C.rung → D = C := by decide
  have found : YieldsBy cfg c C ↔ ∃ D, rungs.find? (tested cfg c) = some D ∧ D.rung ≤ C.rung := by
    simp only [YieldsBy, ladderYields_eq, Option.map_eq_some_iff, Prod.mk.injEq]
    constructor
    · rintro ⟨_, _, ⟨D, found, _, rfl⟩, bound⟩
      exact ⟨D, found, bound⟩
    · rintro ⟨D, found, bound⟩
      exact ⟨_, D, ⟨D, found, rfl, rfl⟩, bound⟩
  rw [found, find_le_iff ascending]
  constructor
  · rintro ⟨D, listed, bound, holds⟩
    rcases Nat.lt_or_eq_of_le bound with below | same
    · exact Or.inr ⟨D, listed, below, holds⟩
    · exact Or.inl (apart C member D listed same ▸ holds)
  · rintro (holds | ⟨D, listed, below, holds⟩)
    · exact ⟨C, member, le_refl _, holds⟩
    · exact ⟨D, listed, below.le, holds⟩

/-- What is not cleared is within the hysteresis: rounding the threshold does not carry it across
the value. -/
theorem within_of_notCleared {C : Condition} (value : c.val.asF64.Finite) (limit : (c.limitOf C).Finite)
    (hyst : (⟨0⟩ : F64).le cfg.hyst = true) (notCleared : NotCleared cfg c C) : within cfg c C = true := by
  unfold within
  unfold NotCleared at notCleared
  split_ifs at notCleared ⊢
  · exact F64.sub_le limit value hyst notCleared
  · exact F64.le_add limit value hyst notCleared

/-- After a ladder that yielded the condition, one on a value that has not cleared its limit yields
it or one tested before, if the condition is still the committed one or the ladder would without. -/
theorem yieldsBy_iff_held {first : Cells} {sev : Severity} {C : Condition} (yielded : ladderYields cfg first = some (sev, C))
    (value : c.val.asF64.Finite) (limit : (c.limitOf C).Finite) (hyst : (⟨0⟩ : F64).le cfg.hyst = true)
    (notCleared : NotCleared cfg c C) :
    YieldsBy cfg c C ↔ c.stat = C ∨ beyond c C = true ∨ ∃ D ∈ rungs, D.rung < C.rung ∧ tested cfg c D = true := by
  rw [ladderYields_eq] at yielded
  obtain ⟨D, found, same⟩ := Option.map_eq_some_iff.mp yielded
  cases same
  have listed := List.mem_of_find?_eq_some found
  have alarmed : cfg.severityOf C ≠ .noAlarm := by
    have reached := List.find?_some found
    simp only [tested, crossed, Bool.and_eq_true, decide_eq_true_eq] at reached
    exact reached.1
  have own : tested cfg c C = true ↔ c.stat = C ∨ beyond c C = true := by
    simp only [tested, crossed, within_of_notCleared value limit hyst notCleared, Bool.and_true, Bool.and_eq_true,
      Bool.or_eq_true, decide_eq_true_eq]
    constructor
    · rintro ⟨_, reached | held⟩
      · exact Or.inr reached
      · exact Or.inl held
    · rintro (held | reached)
      · exact ⟨alarmed, Or.inr held⟩
      · exact ⟨alarmed, Or.inl reached⟩
  rw [yieldsBy_iff listed, own, or_assoc]

end

section

variable {n : Nat} {ω : Type} (db : Fin n → Config (Fin n)) (host : Host n ω)

/-- The calls of a sequence, whatever their results. -/
def runCalls (calls : List (Call n)) (s : Pass n ω) : Pass n ω :=
  calls.foldl (fun s call => (call.run db host s).2) s

variable {db host}

theorem runCalls_restored (calls : List (Call n)) (s : Pass n ω) : Restored s (runCalls db host calls s) := by
  induction calls generalizing s with
  | nil => exact .refl s
  | cons call rest ih => exact (call_restored call s).trans (ih _)

/-- A ladder is tried on the condition that the commits before it left. -/
theorem LaddersFit.stat_eq {j : Fin n} {before : Condition} {earlier later : List (Mark n)} {c : Cells}
    (fits : LaddersFit j before (earlier ++ .ladder j c :: later)) : c.stat = statAfter j earlier before := by
  induction earlier generalizing before with
  | nil => exact fits.1 rfl
  | cons m rest ih => exact ih fits.2

theorem LaddersFit.skip {j : Fin n} {before : Condition} {earlier later : List (Mark n)}
    (fits : LaddersFit j before (earlier ++ later)) : LaddersFit j (statAfter j earlier before) later := by
  induction earlier generalizing before with
  | nil => exact fits
  | cons m rest ih => exact ih fits.2

theorem asF64_finite {v : Value} {kind : Kind} (fits : v.Fits kind) (integer : kind = .longIn ∨ kind = .longOut) :
    v.asF64.Finite := by
  cases v with
  | long i => exact F64.ofInt_finite i
  | double _ | enum _ => rcases integer with rfl | rfl <;> cases fits

/-- Over any sequence of calls, the ladder of a record that yielded a condition yields it or one
tested before the next time, on a value that has not cleared the limit, if the last commit in
between left that condition, or if the ladder would without the hysteresis. -/
theorem hysteresis_holds_iff (calls : List (Call n)) (s : Pass n ω) {j : Fin n}
    (integer : (db j).kind = .longIn ∨ (db j).kind = .longOut) {earlier between later : List (Mark n)} {first second : Cells}
    (log : (runCalls db host calls s).log =
      s.log ++ (earlier ++ .ladder j first :: (between ++ .ladder j second :: later)))
    {sev : Severity} {C : Condition} (yielded : ladderYields (db j) first = some (sev, C))
    (native : second.val.Fits (db j).kind) (unchanged : ∀ D ∈ rungs, second.limitOf D = first.limitOf D)
    (limits : ∀ D ∈ rungs, (first.limitOf D).Finite) (hyst : (⟨0⟩ : F64).le (db j).hyst = true)
    (notCleared : NotCleared (db j) second C) :
    YieldsBy (db j) second C ↔ statAfter j between first.stat = C ∨ beyond second C = true ∨
      ∃ D ∈ rungs, D.rung < C.rung ∧ tested (db j) second D = true := by
  obtain ⟨marks, grown, flags⟩ := (@runCalls_restored n ω db host calls s).log
  have same : marks = earlier ++ .ladder j first :: (between ++ .ladder j second :: later) :=
    List.append_cancel_left (grown.symm.trans log)
  have fits := (flags j).2.ladders
  rw [same] at fits
  have stat : second.stat = statAfter j between first.stat := by
    have next := fits.skip.2
    rw [← fits.stat_eq] at next
    exact next.stat_eq
  have member : C ∈ rungs := by
    rw [ladderYields_eq] at yielded
    obtain ⟨D, found, same⟩ := Option.map_eq_some_iff.mp yielded
    cases same
    exact List.mem_of_find?_eq_some found
  have limit : (second.limitOf C).Finite := unchanged C member ▸ limits C member
  rw [← stat]
  exact yieldsBy_iff_held yielded (asF64_finite native integer) limit hyst notCleared

end

/-- The cells on which the ladder of a record was tried. -/
def ladders {n : Nat} (j : Fin n) (log : List (Mark n)) : List Cells := log.filterMap fun m =>
  match m with
  | .ladder id cells => if id = j then some cells else none
  | _ => none

namespace Hovering

/-- The two records, `A` and `B`. -/
def a : Fin 2 := (Fin.last 0).castSucc

def b : Fin 2 := Fin.last 1

/-- The first record takes its value from the second, and goes into alarm at 10. -/
def records (maximizeSeverity : Bool) : Fin 2 → Config (Fin 2)
  | 0 => { name := "A", kind := .longIn, hhsv := .major, hyst := .ofInt 5, inp := .db b .val false maximizeSeverity }
  | 1 => { name := "B", kind := .longIn }

def cells : Fin 2 → Cells
  | 0 => { hihi := .ofInt 10 }
  | 1 => { val := .long 12, sevr := .major }

/-- The value falls from 12 to 8, where it has not cleared the limit. -/
def calls : List (Call 2) := [.process a, .writeField b .val (.long 8), .process a]

def log (maximizeSeverity : Bool) : List (Mark 2) :=
  (runCalls (records maximizeSeverity) (plainHost 2) calls (freshPass cells ())).log

def first : Cells := (ladders a (log false)).getD 0 {}

def second : Cells := (ladders a (log false)).getD 1 {}

end Hovering

open Hovering in
theorem hysteresis_holds_iff_hovering :
    ladderYields (records false 0) first = some (.major, .hiHi) ∧ YieldsBy (records false 0) second .hiHi := by
  have yielded : ladderYields (records false 0) first = some (.major, .hiHi) := by decide +kernel
  have split : log false = [] ++ ((log false).take 1 ++ .ladder 0 first ::
      (((log false).drop 2).take 3 ++ .ladder 0 second :: (log false).drop 6)) := by decide +kernel
  refine ⟨yielded, (hysteresis_holds_iff calls (freshPass cells ()) (Or.inl rfl) split yielded ?_ ?_ ?_ ?_ ?_).mpr
    (Or.inl ?_)⟩
  · rw [show second.val = .long 8 by decide +kernel]
    trivial
  · decide +kernel
  · change ∀ D ∈ rungs, (first.limitOf D).magnitude < F64.infinite
    decide +kernel
  · decide +kernel
  · intro _
    decide +kernel
  · decide +kernel

open Hovering in
/-- The severity of a link is committed in place of the limit's, and the limit is not held. -/
theorem link_severity_drops_hysteresis :
    (ladders 0 (log true)).map (fun c => (c.val, ladderYields (records true 0) c, within (records true 0) c .hiHi)) =
      [(.long 12, some (.major, .hiHi), true), (.long 8, none, true)] := by
  decide +kernel

end Engine

end Spvirit.Ioc
