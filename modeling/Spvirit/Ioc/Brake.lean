import Spvirit.Ioc.Restored

/-! The recursion brake: no record is entered again while it is on the processing stack. -/

namespace Spvirit.Ioc.Engine

open Fallible

variable {n : Nat} {ω : Type} {db : Fin n → Config (Fin n)} {host : Host n ω}

/-- No record is bound to a device support. -/
def Host.Unbound (host : Host n ω) : Prop := ∀ id, host.asyncRegistry id = none

/-- No record that is processed for a disable check processes, itself or through others, the
record that is checked. -/
def DisableAcyclic (db : Fin n → Config (Fin n)) : Prop := ∀ i j, SdisEdge db i j → ¬Reaches db j i

/-- The record is not on the stack that it was entered over, and no record is given up on. -/
def Mark.Fresh : Mark n → Prop
  | entered id stack => id ∉ stack
  | gaveUp _ => False
  | pending _ | completed _ | ladder _ _ | committed _ _ _ | disabled _ _ => True

/-- Every entry of the run is over a stack without the record, and nothing is given up on. -/
def EntersFresh (s t : Pass n ω) : Prop := ∃ marks, t.log = s.log ++ marks ∧ ∀ m ∈ marks, m.Fresh

theorem EntersFresh.trans {s t u : Pass n ω} (first : EntersFresh s t) (second : EntersFresh t u) :
    EntersFresh s u := by
  obtain ⟨marks, log, fresh⟩ := first
  obtain ⟨marks', log', fresh'⟩ := second
  refine ⟨marks ++ marks', by rw [log', log, List.append_assoc], fun m member => ?_⟩
  exact (List.mem_append.mp member).elim (fresh m) (fresh' m)

theorem Quiet.entersFresh {s t : Pass n ω} (quiet : Quiet s t) : EntersFresh s t := by
  obtain ⟨marks, log, silent, _⟩ := quiet.log
  refine ⟨marks, log, fun m member => ?_⟩
  have := silent m member
  cases m <;> trivial

/-- The records on the stack: those at their disable check, and those in their body. Others were
active before. -/
structure Stacked (n : Nat) where
  held : Finset (Fin n)
  waiting : Finset (Fin n)
  active : Finset (Fin n)
  stack : List (Fin n)
  disjoint : Disjoint waiting active
  covers : ∀ j ∈ stack, j ∈ waiting ∨ j ∈ active

namespace Stacked

def size (c : Stacked n) : Nat := c.waiting.card + c.active.card

/-- `PACT` is set on the records in their body, and on those that were active before. -/
structure Fits (c : Stacked n) (s : Pass n ω) : Prop where
  pact : ∀ j, (s.cells j).pact = true ↔ j ∈ c.active ∨ j ∈ c.held
  depth : s.depth = c.size
  stack : s.stack = c.stack

def Step (c : Stacked n) (s t : Pass n ω) : Prop := c.Fits s → c.Fits t ∧ EntersFresh s t

theorem Step.trans {c : Stacked n} {s t u : Pass n ω} (first : c.Step s t) (second : c.Step t u) : c.Step s u := by
  intro fits
  obtain ⟨fits, fresh⟩ := first fits
  obtain ⟨fits, fresh'⟩ := second fits
  exact ⟨fits, fresh.trans fresh'⟩

theorem fits_of_quiet {c : Stacked n} {s t : Pass n ω} (quiet : Quiet s t) (fits : c.Fits s) : c.Fits t :=
  ⟨fun j => by rw [quiet.pact j]; exact fits.pact j, quiet.depth.trans fits.depth, quiet.stack.trans fits.stack⟩

theorem step_of_quiet (c : Stacked n) {s t : Pass n ω} (quiet : Quiet s t) : c.Step s t :=
  fun fits => ⟨fits_of_quiet quiet fits, quiet.entersFresh⟩

theorem body (c : Stacked n) (db : Fin n → Config (Fin n)) (own : Fin n) :
    Body db own (c.Step : Pass n ω → Pass n ω → Prop) fun s => ¬c.Fits s :=
  (quiet_body db own).weaken c.step_of_quiet Step.trans fun step failed fits => failed (step fits).1

theorem check (c : Stacked n) (db : Fin n → Config (Fin n)) (own : Fin n) :
    Check db own (c.Step : Pass n ω → Pass n ω → Prop) fun s => ¬c.Fits s :=
  (quiet_check db own).weaken c.step_of_quiet Step.trans fun step failed fits => failed (step fits).1

/-- The record is at its disable check. -/
def wait (c : Stacked n) (id : Fin n) (idle : id ∉ c.active) : Stacked n where
  held := c.held
  waiting := insert id c.waiting
  active := c.active
  stack := id :: c.stack
  disjoint := Finset.disjoint_insert_left.mpr ⟨idle, c.disjoint⟩
  covers j member := by
    rcases List.mem_cons.mp member with rfl | below
    · exact Or.inl (Finset.mem_insert_self _ _)
    · exact (c.covers j below).imp Finset.mem_insert_of_mem fun active => active

/-- The record is in its body. -/
def run (c : Stacked n) (id : Fin n) (fresh : id ∉ c.waiting) : Stacked n where
  held := c.held
  waiting := c.waiting
  active := insert id c.active
  stack := id :: c.stack
  disjoint := Finset.disjoint_insert_right.mpr ⟨fresh, c.disjoint⟩
  covers j member := by
    rcases List.mem_cons.mp member with rfl | below
    · exact Or.inr (Finset.mem_insert_self _ _)
    · exact (c.covers j below).imp (fun waiting => waiting) Finset.mem_insert_of_mem

/-- The check of every waiting record led to the record. -/
def LeadsTo (db : Fin n → Config (Fin n)) (c : Stacked n) (id : Fin n) : Prop :=
  ∀ w ∈ c.waiting, ∃ y, SdisEdge db w y ∧ Reaches db y id

theorem LeadsTo.next {c : Stacked n} {i j : Fin n} (leads : LeadsTo db c i) (edge : Edge db i j) : LeadsTo db c j := by
  intro w member
  obtain ⟨y, link, reaches⟩ := leads w member
  exact ⟨y, link, reaches.tail edge⟩

theorem size_lt (c : Stacked n) {id : Fin n} (fresh : id ∉ c.waiting) (idle : id ∉ c.active) : c.size < n := by
  have disjoint : Disjoint c.waiting (insert id c.active) := Finset.disjoint_insert_right.mpr ⟨fresh, c.disjoint⟩
  have bound := Finset.card_le_univ (c.waiting ∪ insert id c.active)
  rw [Finset.card_union_of_disjoint disjoint, Finset.card_insert_of_notMem idle, Fintype.card_fin] at bound
  unfold size
  omega

end Stacked

section

variable {c : Stacked n} {id : Fin n} {process : Fin n → Action n ω Unit} {s : Pass n ω}

/-- What succeeds and keeps the stack, from cells that fit it. -/
theorem Stacked.ok_of_moves {m : Action n ω Unit} (moves : Moves c.Step (fun s => ¬c.Fits s) m) (fits : c.Fits s) :
    ∃ t, m s = (.ok (), t) ∧ c.Fits t ∧ EntersFresh s t := by
  obtain ⟨moved, fails⟩ := moves s
  rcases result : m s with ⟨r, t⟩
  rw [result] at moved fails
  cases r with
  | ok a => exact ⟨t, rfl, moved fits⟩
  | error e => exact absurd fits (fails e rfl)

section

variable (fresh : id ∉ c.waiting) (idle : id ∉ c.active)

include fresh idle

theorem size_wait_run : (c.wait id idle).size = (c.run id fresh).size := by
  simp only [Stacked.size, Stacked.wait, Stacked.run, Finset.card_insert_of_notMem fresh,
    Finset.card_insert_of_notMem idle]
  omega

theorem fits_raisePact (fits : (c.wait id idle).Fits s) : (c.run id fresh).Fits (s.raisePact id) := by
  refine ⟨fun j => ?_, fits.depth.trans (size_wait_run fresh idle), fits.stack⟩
  · rw [(raisePact_flags s id j).1]
    by_cases same : id = j
    · simp [Stacked.run, same]
    · rw [if_neg same, fits.pact j]
      simp [Stacked.run, Stacked.wait, Ne.symm same]

theorem fits_complete (free : id ∉ c.held) (fits : (c.run id fresh).Fits s) :
    (c.wait id idle).Fits (s.complete id) := by
  refine ⟨fun j => ?_, fits.depth.trans (size_wait_run fresh idle).symm, fits.stack⟩
  · rw [show ((s.complete id).cells j).pact = _ from (clearPact_flags s id j).1]
    by_cases same : id = j
    · subst same
      simp [Stacked.wait, idle, free]
    · rw [if_neg same, fits.pact j]
      simp [Stacked.run, Stacked.wait, Ne.symm same]

theorem finishBody_brakes (free : id ∉ c.held)
    (calls : ∀ j, BodyEdge db id j → Moves (c.run id fresh).Step (fun s => ¬(c.run id fresh).Fits s) (process j))
    (fits : (c.run id fresh).Fits s) :
    ∃ t, finishBody db host id process s = (.ok (), t) ∧ (c.wait id idle).Fits t ∧ EntersFresh s t := by
  have body := @Stacked.body n ω (c.run id fresh) db id
  obtain ⟨t, result, kept, first⟩ := Stacked.ok_of_moves (transfer_moves body calls) fits
  have settled := (quiet_body db id).settle t host
  obtain ⟨u, forwarded, left, later⟩ := Stacked.ok_of_moves (forwardLink_moves body.toFlow calls)
    (Stacked.fits_of_quiet settled kept)
  refine ⟨u.complete id, ?_, fits_complete fresh idle free left, ?_⟩
  · unfold finishBody
    rw [bind_ok (onError_ok result)]
    refine (bind_ok rfl).trans ?_
    rw [afterwards, forwarded]
  · have completed : EntersFresh u (u.complete id) := ⟨[.completed id], rfl, by simp [Mark.Fresh]⟩
    exact ((first.trans settled.entersFresh).trans later).trans completed

end

theorem processInner_brakes (unbound : host.Unbound) (fresh : id ∉ c.waiting) (idle : id ∉ c.active)
    (free : id ∉ c.held)
    (checks : ∀ j, SdisEdge db id j → Moves (c.wait id idle).Step (fun s => ¬(c.wait id idle).Fits s) (process j))
    (calls : ∀ j, BodyEdge db id j → Moves (c.run id fresh).Step (fun s => ¬(c.run id fresh).Fits s) (process j))
    (fits : (c.wait id idle).Fits s) :
    ∃ t, processInner db host id process s = (.ok (), t) ∧ (c.wait id idle).Fits t ∧ EntersFresh s t := by
  have traced := (quiet_plainly db).traceLine id ": process entered" s
  obtain ⟨t, checked, kept, first⟩ := Stacked.ok_of_moves
    (readSdis_moves (@Stacked.check n ω (c.wait id idle) db id) checks) (Stacked.fits_of_quiet traced fits)
  have start := traced.entersFresh.trans first
  suffices rest : ∃ u, runEnabled db host id process t = (.ok (), u) ∧ (c.wait id idle).Fits u ∧ EntersFresh t u by
    obtain ⟨u, ran, left, later⟩ := rest
    exact ⟨u, (bind_ok rfl).trans ((bind_ok checked).trans ran), left, start.trans later⟩
  by_cases off : (t.cells id).disa = (t.cells id).disv
  · have disabled := (quiet_check db id).disable t
    exact ⟨t.disable db id, (bind_ok rfl).trans (congrFun (if_pos off) t), Stacked.fits_of_quiet disabled kept,
      disabled.entersFresh⟩
  · obtain ⟨u, body, left, later⟩ := @finishBody_brakes n ω db host c id process _ fresh idle free calls
      (fits_raisePact fresh idle kept)
    have done := (quiet_plainly db).traceLine id ": process complete" u
    refine ⟨u.traceLine db id ": process complete", ?_, Stacked.fits_of_quiet done left, ?_⟩
    · refine (bind_ok rfl).trans ((congrFun (if_neg off) t).trans ?_)
      rw [afterwards, recordBody_unbound (unbound id), body]
    · exact (show EntersFresh t u from later).trans done.entersFresh

theorem fits_enter (fresh : id ∉ c.waiting) (idle : id ∉ c.active) (fits : c.Fits s) :
    (c.wait id idle).Fits (s.enter id) := by
  refine ⟨fits.pact, ?_, congrArg (id :: ·) fits.stack⟩
  change s.depth + 1 = _
  rw [fits.depth]
  simp only [Stacked.size, Stacked.wait, Finset.card_insert_of_notMem fresh]
  omega

theorem fits_popDepth (fresh : id ∉ c.waiting) (idle : id ∉ c.active) (fits : (c.wait id idle).Fits s) :
    c.Fits s.popDepth := by
  refine ⟨fits.pact, ?_, congrArg List.tail fits.stack⟩
  change s.depth - 1 = _
  rw [fits.depth]
  simp only [Stacked.size, Stacked.wait, Finset.card_insert_of_notMem fresh]
  omega

theorem Stacked.LeadsTo.notMem_waiting (acyclic : DisableAcyclic db) (leads : c.LeadsTo db id) : id ∉ c.waiting := by
  intro waits
  obtain ⟨y, link, reaches⟩ := leads id waits
  exact acyclic id y link reaches

/-- Only a record that is not on the stack goes past the brake. -/
theorem guarded_brakes (acyclic : DisableAcyclic db) (leads : c.LeadsTo db id) {inner : Action n ω Unit}
    (enters : ∀ s, c.Fits s → id ∉ c.waiting → id ∉ c.active → id ∉ c.held →
      ∃ t, inner s = (.ok (), t) ∧ c.Fits t ∧ EntersFresh s t) :
    Moves c.Step (fun s => ¬c.Fits s) (guarded db id inner) := by
  intro s
  by_cases fits : c.Fits s
  swap
  · exact ⟨fun kept => absurd kept fits, fun _ _ => fits⟩
  by_cases active : (s.cells id).pact = true
  · exact .of_ok (if_pos active) (c.step_of_quiet ((quiet_plainly db).traceLine id _ s))
  · obtain ⟨t, result, moved⟩ := enters s fits (leads.notMem_waiting acyclic)
      (fun member => active ((fits.pact id).mpr (Or.inl member)))
      fun member => active ((fits.pact id).mpr (Or.inr member))
    exact .of_ok ((if_neg active).trans result) fun _ => moved

theorem visit_brakes (acyclic : DisableAcyclic db) (unbound : host.Unbound) (few : n ≤ maxDepth) (fuel : Nat)
    (c : Stacked n) (id : Fin n) (enough : fuel + c.size = maxDepth) (leads : c.LeadsTo db id) :
    Moves c.Step (fun s => ¬c.Fits s) (visit db host fuel id) := by
  induction fuel generalizing c id with
  | zero =>
    refine guarded_brakes acyclic leads fun s fits fresh idle free => ?_
    have := c.size_lt fresh idle
    omega
  | succ fuel ih =>
    refine guarded_brakes acyclic leads fun s fits fresh idle free => ?_
    have room : s.depth < maxDepth := by
      have := c.size_lt fresh idle
      have := fits.depth
      omega
    have size : fuel + (c.wait id idle).size = maxDepth ∧ fuel + (c.run id fresh).size = maxDepth := by
      simp only [Stacked.size, Stacked.wait, Stacked.run, Finset.card_insert_of_notMem fresh,
        Finset.card_insert_of_notMem idle] at enough ⊢
      omega
    have checks (j : Fin n) (edge : SdisEdge db id j) := ih (c.wait id idle) j size.1 fun w member => by
      rcases Finset.mem_insert.mp member with rfl | waits
      · exact ⟨j, edge, .refl⟩
      · exact leads.next (Or.inl edge) w waits
    have calls (j : Fin n) (edge : BodyEdge db id j) :=
      ih (c.run id fresh) j size.2 (leads.next (Or.inr edge) : c.LeadsTo db j)
    obtain ⟨t, ran, left, entered⟩ := processInner_brakes unbound fresh idle free checks calls (fits_enter fresh idle fits)
    have own : id ∉ s.stack := by
      rw [fits.stack]
      exact fun member => (c.covers id member).elim fresh idle
    have first : EntersFresh s (s.enter id) := ⟨[.entered id s.stack], rfl, by simpa [Mark.Fresh] using own⟩
    exact ⟨t.popDepth, by rw [nested_room room, ran], fits_popDepth fresh idle left, first.trans entered⟩

end

/-- Before any record is entered, with some records active. -/
def Stacked.none (held : Finset (Fin n)) : Stacked n where
  held := held
  waiting := ∅
  active := ∅
  stack := []
  disjoint := Finset.disjoint_empty_left _
  covers := by simp

/-- A pass starts with nothing on the stack, and leaves the active records as they are. -/
structure Rested (s t : Pass n ω) : Prop where
  pact : ∀ j, (t.cells j).pact = (s.cells j).pact
  depth : t.depth = 0
  stack : t.stack = []

/-- A pass starts with no record active, and nothing on the stack. -/
structure Idle (s : Pass n ω) : Prop where
  pact : ∀ j, (s.cells j).pact = false
  depth : s.depth = 0
  stack : s.stack = []

/-- The pass returns, and no record is entered while an earlier entry of it is on the stack. -/
structure Braked (db : Fin n → Config (Fin n)) (host : Host n ω) (id : Fin n) (s : Pass n ω) : Prop where
  ok : (process db host id s).1 = .ok ()
  fresh : EntersFresh s (process db host id s).2

theorem process_brakes {id : Fin n} {s : Pass n ω} (acyclic : DisableAcyclic db) (unbound : host.Unbound)
    (few : n ≤ maxDepth) (rested : Rested s s) :
    Braked db host id s ∧ Rested s (process db host id s).2 := by
  let held := Finset.univ.filter fun j => (s.cells j).pact = true
  have moves := @visit_brakes n ω db host acyclic unbound few (maxDepth - s.depth) (Stacked.none held) id
    (by simp [rested.depth, Stacked.size, Stacked.none]) (by simp [Stacked.LeadsTo, Stacked.none])
  have fits : (Stacked.none held).Fits s := ⟨by simp [Stacked.none, held], rested.depth, rested.stack⟩
  obtain ⟨t, result, left, fresh⟩ := Stacked.ok_of_moves moves fits
  have same : process db host id s = (.ok (), t) := result
  refine ⟨⟨by rw [same], by rw [same]; exact fresh⟩, ?_⟩
  rw [same]
  refine ⟨fun j => ?_, left.depth, left.stack⟩
  rw [Bool.eq_iff_iff, left.pact j, fits.pact j]

theorem Idle.rested {s : Pass n ω} (idle : Idle s) : Rested s s := ⟨fun _ => rfl, idle.depth, idle.stack⟩

end Spvirit.Ioc.Engine
