import Spvirit.Ioc.Moves

/-! `PACT` and the depth after a call. -/

namespace Spvirit.Ioc.Engine

open Fallible

variable {n : Nat} {ω : Type} {db : Fin n → Config (Fin n)} {host : Host n ω} {id : Fin n}

namespace Mark

/-- What a mark says of a record's `PACT`. -/
def pact (j : Fin n) (before : Bool) : Mark n → Bool
  | pending id => if id = j then true else before
  | completed id | gaveUp id => if id = j then false else before
  | entered _ _ | ladder _ _ | committed _ _ _ | disabled _ _ => before

def stat (j : Fin n) (before : Condition) : Mark n → Condition
  | committed id _ alarm | disabled id alarm => if id = j then alarm.2 else before
  | entered _ _ | pending _ | completed _ | gaveUp _ | ladder _ _ => before

/-- The marks of steps on a single record. -/
def isQuiet : Mark n → Bool
  | ladder _ _ | committed _ _ _ | disabled _ _ => true
  | entered _ _ | pending _ | completed _ | gaveUp _ => false

theorem pact_of_isQuiet {j : Fin n} {m : Mark n} {before : Bool} (quiet : m.isQuiet = true) :
    m.pact j before = before := by
  cases m <;> first | rfl | cases quiet

end Mark

/-- `PACT` after a part of the log: set by a support that is pending, and clear once the record
completed or was given up on. -/
def pactAfter (j : Fin n) (marks : List (Mark n)) (before : Bool) : Bool := marks.foldl (Mark.pact j) before

def statAfter (j : Fin n) (marks : List (Mark n)) (before : Condition) : Condition := marks.foldl (Mark.stat j) before

/-- The ladder of the record was tried on the condition that was last committed. -/
def Mark.Fits (j : Fin n) (before : Condition) : Mark n → Prop
  | ladder id cells => id = j → cells.stat = before
  | entered _ _ | pending _ | completed _ | gaveUp _ | committed _ _ _ | disabled _ _ => True

/-- The same for every mark in turn. -/
def LaddersFit (j : Fin n) : Condition → List (Mark n) → Prop
  | _, [] => True
  | before, m :: rest => m.Fits j before ∧ LaddersFit j (m.stat j before) rest

/-- What the log says of the committed condition of a record. -/
structure Replays (j : Fin n) (before : Condition) (marks : List (Mark n)) (after : Condition) : Prop where
  stat : after = statAfter j marks before
  ladders : LaddersFit j before marks

namespace Replays

variable {j : Fin n} {before middle after : Condition} {marks more : List (Mark n)} {m : Mark n}

theorem nil : Replays j before [] before := ⟨rfl, trivial⟩

theorem of_mark (stat : after = m.stat j before) (fits : m.Fits j before) : Replays j before [m] after :=
  ⟨stat, fits, trivial⟩

theorem cons (fits : m.Fits j before) (rest : Replays j (m.stat j before) marks after) :
    Replays j before (m :: marks) after := ⟨rest.stat, fits, rest.ladders⟩

theorem append (first : Replays j before marks middle) (second : Replays j middle more after) :
    Replays j before (marks ++ more) after := by
  obtain ⟨rfl, fits⟩ := first
  induction marks generalizing before with
  | nil => exact second
  | cons m rest ih => exact .cons fits.1 (ih fits.2 second)

end Replays

/-- The depth and the stack are as they were, and the log says what became of the flags. -/
structure Restored (s t : Pass n ω) : Prop where
  depth : t.depth = s.depth
  stack : t.stack = s.stack
  log : ∃ marks, t.log = s.log ++ marks ∧ ∀ j, (t.cells j).pact = pactAfter j marks (s.cells j).pact ∧
    Replays j (s.cells j).stat marks (t.cells j).stat

/-- The same for the rest of a body, whose end settles the flag of its own record. -/
structure Closes (id : Fin n) (s t : Pass n ω) : Prop where
  depth : t.depth = s.depth
  stack : t.stack = s.stack
  log : ∃ marks, t.log = s.log ++ marks ∧ (∀ j, j ≠ id → (t.cells j).pact = pactAfter j marks (s.cells j).pact) ∧
    (∀ before, (t.cells id).pact = pactAfter id marks before) ∧
    ∀ j, Replays j (s.cells j).stat marks (t.cells j).stat

namespace Restored

variable {s t u : Pass n ω}

theorem refl (s : Pass n ω) : Restored s s := ⟨rfl, rfl, [], (List.append_nil _).symm, fun _ => ⟨rfl, .nil⟩⟩

theorem trans (first : Restored s t) (second : Restored t u) : Restored s u := by
  obtain ⟨marks, log, flags⟩ := first.log
  obtain ⟨marks', log', flags'⟩ := second.log
  refine ⟨second.depth.trans first.depth, second.stack.trans first.stack, marks ++ marks', ?_, fun j => ?_⟩
  · rw [log', log, List.append_assoc]
  · refine ⟨?_, (flags j).2.append (flags' j).2⟩
    rw [(flags' j).1, (flags j).1]
    exact List.foldl_append.symm

theorem of_mark {m : Mark n} (depth : t.depth = s.depth) (stack : t.stack = s.stack) (log : t.log = s.log ++ [m])
    (pact : ∀ j, (t.cells j).pact = m.pact j (s.cells j).pact)
    (stat : ∀ j, Replays j (s.cells j).stat [m] (t.cells j).stat) : Restored s t :=
  ⟨depth, stack, [m], log, fun j => ⟨pact j, stat j⟩⟩

theorem closes (first : Restored s t) (second : Closes id t u) : Closes id s u := by
  obtain ⟨marks, log, flags⟩ := first.log
  obtain ⟨marks', log', others, own, conditions⟩ := second.log
  refine ⟨second.depth.trans first.depth, second.stack.trans first.stack, marks ++ marks', ?_, fun j other => ?_,
    fun before => ?_, fun j => ?_⟩
  · rw [log', log, List.append_assoc]
  · rw [others j other, (flags j).1]
    exact List.foldl_append.symm
  · rw [own (pactAfter id marks before)]
    exact List.foldl_append.symm
  · exact (flags j).2.append (conditions j)

end Restored

/-- A step on single records: it enters and leaves no record. -/
structure Quiet (s t : Pass n ω) : Prop where
  depth : t.depth = s.depth
  stack : t.stack = s.stack
  pact : ∀ j, (t.cells j).pact = (s.cells j).pact
  log : ∃ marks, t.log = s.log ++ marks ∧ (∀ m ∈ marks, m.isQuiet = true) ∧
    ∀ j, Replays j (s.cells j).stat marks (t.cells j).stat

namespace Quiet

variable {s t u : Pass n ω}

theorem of_same (depth : t.depth = s.depth) (stack : t.stack = s.stack) (log : t.log = s.log)
    (flags : ∀ j, (t.cells j).pact = (s.cells j).pact ∧ (t.cells j).stat = (s.cells j).stat) : Quiet s t :=
  ⟨depth, stack, fun j => (flags j).1, [], by rw [log, List.append_nil], by simp, fun j => (flags j).2 ▸ .nil⟩

theorem of_mark {m : Mark n} (depth : t.depth = s.depth) (stack : t.stack = s.stack) (log : t.log = s.log ++ [m])
    (quiet : m.isQuiet = true)
    (flags : ∀ j, (t.cells j).pact = (s.cells j).pact ∧ (t.cells j).stat = m.stat j (s.cells j).stat)
    (fits : ∀ j, m.Fits j (s.cells j).stat) : Quiet s t :=
  ⟨depth, stack, fun j => (flags j).1, [m], log, by simpa using quiet, fun j => .of_mark (flags j).2 (fits j)⟩

theorem refl (s : Pass n ω) : Quiet s s := .of_same rfl rfl rfl fun _ => ⟨rfl, rfl⟩

theorem trans (first : Quiet s t) (second : Quiet t u) : Quiet s u := by
  obtain ⟨marks, log, quiet, conditions⟩ := first.log
  obtain ⟨marks', log', quiet', conditions'⟩ := second.log
  refine ⟨second.depth.trans first.depth, second.stack.trans first.stack,
    fun j => (second.pact j).trans (first.pact j), marks ++ marks', ?_, ?_, fun j => ?_⟩
  · rw [log', log, List.append_assoc]
  · exact fun m member => (List.mem_append.mp member).elim (quiet m) (quiet' m)
  · exact (conditions j).append (conditions' j)

theorem update {id : Fin n} {f : Cells → Cells} (kept : ∀ c, (f c).pact = c.pact ∧ (f c).stat = c.stat) :
    Quiet s (s.update id f) := by
  refine .of_same rfl rfl rfl fun j => ?_
  by_cases same : j = id
  · subst same
    simpa [Pass.update] using kept (s.cells j)
  · simp [Pass.update, same]

theorem restored (quiet : Quiet s t) : Restored s t := by
  obtain ⟨marks, log, silent, conditions⟩ := quiet.log
  refine ⟨quiet.depth, quiet.stack, marks, log, fun j => ⟨?_, conditions j⟩⟩
  rw [quiet.pact j, pactAfter]
  clear log conditions
  induction marks with
  | nil => rfl
  | cons m rest ih =>
    rw [List.foldl_cons, Mark.pact_of_isQuiet (silent m List.mem_cons_self)]
    exact ih fun m' member => silent m' (List.mem_cons_of_mem m member)

end Quiet

theorem setSevr_flags (sev : Severity) (cond : Condition) (c : Cells) :
    (c.setSevr sev cond).2.pact = c.pact ∧ (c.setSevr sev cond).2.stat = c.stat := by
  unfold Cells.setSevr
  split_ifs <;> exact ⟨rfl, rfl⟩

theorem resetAlarms_flags (s : Pass n ω) (id j : Fin n) :
    (((s.resetAlarms id).2.cells j).pact = (s.cells j).pact) ∧
      ((s.resetAlarms id).2.cells j).stat =
        if id = j then ((s.resetAlarms id).2.cells id).alarm.2 else (s.cells j).stat := by
  by_cases same : id = j
  · subst same
    simp [Pass.resetAlarms, Pass.update, Cells.resetAlarms, Cells.alarm]
  · simp [Pass.resetAlarms, Pass.update, same, Ne.symm same]

theorem quiet_plainly (db : Fin n → Config (Fin n)) :
    Plainly db (Quiet : Pass n ω → Pass n ω → Prop) fun _ => True := by
  refine Flow.plainly ⟨.refl, .trans, fun _ _ => trivial⟩ (fun id f s plain => .update fun c => ?_)
    (fun id s => .update fun _ => ⟨rfl, rfl⟩) fun _ _ _ _ => .of_same rfl rfl rfl fun _ => ⟨rfl, rfl⟩
  obtain ⟨_, _, _, _, _, _, _, eq⟩ := plain c
  rw [eq]
  exact ⟨rfl, rfl⟩

theorem quiet_write (id : Fin n) (field : Field) (value : Value) (s : Pass n ω) : Quiet s (s.write db id field value) :=
  (quiet_plainly db).writeAny s (fun _ _ _ => .update fun _ => ⟨rfl, rfl⟩)
    (fun _ _ _ => .update fun _ => ⟨rfl, rfl⟩) id field value

section

variable (db : Fin n → Config (Fin n)) (own : Fin n)

theorem quiet_body : Body db own (Quiet : Pass n ω → Pass n ω → Prop) fun _ => True where
  toPlainly := quiet_plainly db
  out {j field _ _} _ value s := quiet_write j field value s
  contribute sev cond s _ := by
    have step : Quiet s (s.update own fun c => (c.setSevr sev cond).2) := .update (setSevr_flags sev cond)
    exact ⟨step.depth, step.stack, step.pact, step.log⟩
  ladder s := .of_mark rfl rfl rfl rfl (fun _ => ⟨rfl, rfl⟩) fun _ same => same ▸ rfl
  commit s := .of_mark rfl rfl rfl rfl (resetAlarms_flags s own) fun _ => trivial

theorem quiet_check : Check db own (Quiet : Pass n ω → Pass n ω → Prop) fun _ => True where
  toPlainly := quiet_plainly db
  disa {value} _ s := quiet_write own .disa value s
  commitDisabled s := by
    have silenced : Quiet s (s.update own fun c =>
        (Cells.setSevr (db own).diss .disable { c with nsev := .noAlarm, nsta := .noAlarm }).2) :=
      .update fun c => setSevr_flags _ _ { c with nsev := .noAlarm, nsta := .noAlarm }
    exact silenced.trans (.of_mark rfl rfl rfl rfl (resetAlarms_flags _ own) fun _ => trivial)

theorem restored_body : Body db own (Restored : Pass n ω → Pass n ω → Prop) fun _ => True :=
  (quiet_body db own).weaken Quiet.restored Restored.trans fun _ _ => trivial

theorem restored_check : Check db own (Restored : Pass n ω → Pass n ω → Prop) fun _ => True :=
  (quiet_check db own).weaken Quiet.restored Restored.trans fun _ _ => trivial

end

section

variable {s : Pass n ω} {process : Fin n → Action n ω Unit}

theorem clearPact_flags (s : Pass n ω) (id j : Fin n) :
    ((s.clearPact id).cells j).pact = (if id = j then false else (s.cells j).pact) ∧
      ((s.clearPact id).cells j).stat = (s.cells j).stat := by
  by_cases same : id = j
  · subst same
    simp [Pass.clearPact, Pass.update]
  · simp [Pass.clearPact, Pass.update, same, Ne.symm same]

theorem closes_of_mark {s t : Pass n ω} {m : Mark n} {flag : Bool} (depth : t.depth = s.depth) (stack : t.stack = s.stack)
    (log : t.log = s.log ++ [m]) (settles : ∀ j before, m.pact j before = if id = j then flag else before)
    (quiet : ∀ j before, m.stat j before = before ∧ m.Fits j before)
    (flags : ∀ j, (t.cells j).pact = (if id = j then flag else (s.cells j).pact) ∧ (t.cells j).stat = (s.cells j).stat) :
    Closes id s t := by
  refine ⟨depth, stack, [m], log, fun j other => ?_, fun before => ?_, fun j => ?_⟩
  · exact (flags j).1.trans (settles j _).symm
  · refine (flags id).1.trans ((settles id before).trans ?_).symm
    rw [if_pos rfl, if_pos rfl]
  · exact .of_mark ((flags j).2.trans (quiet j _).1.symm) (quiet j _).2

theorem closes_giveUp : Closes id s (s.giveUp id) :=
  closes_of_mark rfl rfl rfl (fun _ _ => rfl) (fun _ _ => ⟨rfl, trivial⟩) (clearPact_flags s id)

theorem closes_complete : Closes id s (s.complete id) :=
  closes_of_mark rfl rfl rfl (fun _ _ => rfl) (fun _ _ => ⟨rfl, trivial⟩) (clearPact_flags s id)

theorem finishBody_closes (calls : ∀ j s, Restored s (process j s).2) (s : Pass n ω) :
    Closes id s (finishBody db host id process s).2 := by
  obtain ⟨t, moved, ends | ends⟩ := finishBody_ends host (restored_body db id) (fun j _ => .of_moved (calls j)) s
  · exact ends ▸ moved.closes closes_giveUp
  · exact ends ▸ moved.closes closes_complete

/-- Raising the flag is undone by what closes the body. -/
theorem Closes.restored {s t u : Pass n ω} (closes : Closes id t u) (depth : t.depth = s.depth)
    (stack : t.stack = s.stack) (log : t.log = s.log)
    (flags : ∀ j, (j ≠ id → (t.cells j).pact = (s.cells j).pact) ∧ (t.cells j).stat = (s.cells j).stat) :
    Restored s u := by
  obtain ⟨marks, grown, others, own, conditions⟩ := closes.log
  refine ⟨closes.depth.trans depth, closes.stack.trans stack, marks, log ▸ grown, fun j => ⟨?_, ?_⟩⟩
  · by_cases same : j = id
    · subst same
      exact own _
    · rw [others j same, (flags j).1 same]
  · rw [← (flags j).2]
    exact conditions j

theorem raisePact_flags (s : Pass n ω) (id j : Fin n) :
    ((s.raisePact id).cells j).pact = (if id = j then true else (s.cells j).pact) ∧
      ((s.raisePact id).cells j).stat = (s.cells j).stat := by
  by_cases same : id = j
  · subst same
    simp [Pass.raisePact, Pass.update]
  · simp [Pass.raisePact, Pass.update, same, Ne.symm same]

theorem recordBody_restored (calls : ∀ j s, Restored s (process j s).2) (s : Pass n ω) :
    Restored s (recordBody db host id process s).2 := by
  have finish (t : Pass n ω) : Closes id t (finishBody db host id process t).2 := finishBody_closes calls t
  have raised (j : Fin n) : (j ≠ id → ((s.raisePact id).cells j).pact = (s.cells j).pact) ∧
      ((s.raisePact id).cells j).stat = (s.cells j).stat :=
    ⟨fun other => by rw [(raisePact_flags s id j).1, if_neg other.symm], (raisePact_flags s id j).2⟩
  cases bound : host.asyncRegistry id with
  | none =>
    rw [recordBody_unbound bound]
    exact (finish (s.raisePact id)).restored rfl rfl rfl raised
  | some support =>
    cases outcome : (support.start (db id).name (s.cells id).pact s.world).outcome with
    | pending =>
      rw [recordBody_bound bound, outcome]
      exact .of_mark rfl rfl rfl (fun j => (raisePact_flags s id j).1) fun j =>
        .of_mark (raisePact_flags s id j).2 trivial
    | complete =>
      rw [recordBody_bound bound, outcome]
      exact (finish _).restored rfl rfl rfl raised

theorem processInner_restored (calls : ∀ j s, Restored s (process j s).2) (s : Pass n ω) :
    Restored s (processInner db host id process s).2 :=
  (processInner_checked host (restored_check db id) (recordBody_restored calls) (fun j _ => .of_moved (calls j)) s).moved

theorem restored_nested {inner : Action n ω Unit} (moves : ∀ s, Restored s (inner s).2) (s : Pass n ω) :
    Restored s (nested db id inner s).2 := by
  by_cases full : maxDepth ≤ s.depth
  · rw [nested_full full]
    exact .refl s
  · rw [nested_room (by omega)]
    obtain ⟨depth, stack, marks, log, flags⟩ := moves (s.enter id)
    refine ⟨?_, ?_, .entered id s.stack :: marks, ?_, fun j => ⟨(flags j).1, .cons trivial (flags j).2⟩⟩
    · change (inner (s.enter id)).2.depth - 1 = s.depth
      rw [depth]
      rfl
    · change (inner (s.enter id)).2.stack.tail = s.stack
      rw [stack]
      rfl
    · change (inner (s.enter id)).2.log = _
      rw [log]
      exact List.append_assoc _ _ _

theorem visit_restored (fuel : Nat) (id : Fin n) (s : Pass n ω) : Restored s (visit db host fuel id s).2 := by
  induction fuel generalizing id s with
  | zero =>
    unfold visit guarded
    split_ifs
    · exact (restored_body db id).traceLine id _ s
    · exact .refl s
  | succ fuel ih =>
    unfold visit guarded
    split_ifs
    · exact (restored_body db id).traceLine id _ s
    · exact restored_nested (processInner_restored ih) s

end

/-- The ways into the engine. -/
inductive Call (n : Nat) where
  | process (id : Fin n)
  | completeAsync (id : Fin n)
  | writeField (id : Fin n) (field : Field) (value : Value)

def Call.run (db : Fin n → Config (Fin n)) (host : Host n ω) : Call n → Action n ω Unit
  | process id => Engine.process db host id
  | completeAsync id => Engine.completeAsync db host id
  | writeField id field value => Engine.writeField db id (Engine.process db host) field value

theorem process_restored (id : Fin n) (s : Pass n ω) : Restored s (process db host id s).2 :=
  visit_restored (maxDepth - s.depth) id s

theorem completeAsync_restored (id : Fin n) (s : Pass n ω) : Restored s (completeAsync db host id s).2 := by
  unfold completeAsync
  split_ifs
  · exact restored_nested (recordBody_restored fun j => visit_restored _ j) s
  · exact .refl s

theorem call_restored (call : Call n) (s : Pass n ω) : Restored s (call.run db host s).2 := by
  cases call with
  | process id => exact process_restored id s
  | completeAsync id => exact completeAsync_restored id s
  | writeField id field value =>
    simp only [Call.run, writeField]
    split_ifs
    · exact process_restored id s
    · exact (quiet_write id field value s).restored

/-- Whatever its result, a call leaves the depth as it was, and `PACT` of every record as the
supports that are pending and the records that completed or were given up on leave it. -/
theorem call_restores_pact_and_depth (call : Call n) (s : Pass n ω) :
    (call.run db host s).2.depth = s.depth ∧ ∃ marks, (call.run db host s).2.log = s.log ++ marks ∧
      ∀ j, ((call.run db host s).2.cells j).pact = pactAfter j marks (s.cells j).pact := by
  have restored := @call_restored n ω db host call s
  obtain ⟨marks, log, flags⟩ := restored.log
  exact ⟨restored.depth, marks, log, fun j => (flags j).1⟩

namespace GivenUp

/-- The second record waits for itself before it can be disabled. -/
def records : Fin 2 → Config (Fin 2)
  | 0 => { name := "A", kind := .ai, inp := .db 1 .val true false }
  | 1 => { name := "B", kind := .ai, sdis := .db 1 .val true false }

/-- The first record's operation is reported as complete. -/
def bindings : Host 2 Unit where
  asyncRegistry id := if id = 0 then some ⟨fun _ _ world => { outcome := .complete, world }⟩ else none
  unixNanos world := (0, world)

def start : Pass 2 Unit := { cells := fun id => { pact := id = 0 }, world := () }

end GivenUp

def Mark.isCompleted (id : Fin n) : Mark n → Bool
  | completed j => j = id
  | _ => false

/-- The first record was active and did not complete, and is not active any more. -/
theorem pact_cleared_without_completion :
    (GivenUp.start.cells 0).pact = true ∧
      (completeAsync GivenUp.records GivenUp.bindings 0 GivenUp.start).1.isOk = false ∧
      ((completeAsync GivenUp.records GivenUp.bindings 0 GivenUp.start).2.cells 0).pact = false ∧
      (completeAsync GivenUp.records GivenUp.bindings 0 GivenUp.start).2.log.any (Mark.isCompleted 0) = false := by
  decide +kernel

end Spvirit.Ioc.Engine
