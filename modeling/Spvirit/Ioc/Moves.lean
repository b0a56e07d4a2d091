import Spvirit.Ioc.Process

/-! Which records a record's links process, and what follows for every step of a pass from
what holds for its parts. -/

namespace Spvirit.Ioc.Engine

variable {n : Nat} {ω : Type}

def Link.Names {τ : Type} (link : Link τ) (target : τ) : Prop :=
  ∃ field processPassive maximizeSeverity, link = .db target field processPassive maximizeSeverity

def Link.Processes {τ : Type} (link : Link τ) (target : τ) : Prop :=
  ∃ field maximizeSeverity, link = .db target field true maximizeSeverity

/-- A write through the link processes a record: it is a `PP` link, or it names `PROC`. -/
def Link.Drives {τ : Type} (link : Link τ) (target : τ) : Prop :=
  ∃ field processPassive maximizeSeverity, link = .db target field processPassive maximizeSeverity ∧
    (field = .proc ∨ processPassive = true)

/-- The records that the body of a record processes. -/
inductive BodyEdge (db : Fin n → Config (Fin n)) (i j : Fin n) : Prop
  | inp (input : (db i).kind.isOutput = false) (link : (db i).inp.Processes j)
  | dol (output : (db i).kind.isOutput = true) (closed : (db i).closedLoop = true) (link : (db i).dol.Processes j)
  | out (output : (db i).kind.isOutput = true) (link : (db i).out.Drives j)
  | flnk (link : (db i).flnk.Names j)

/-- The record that is processed for the disable check. -/
def SdisEdge (db : Fin n → Config (Fin n)) (i j : Fin n) : Prop := (db i).sdis.Processes j

def Edge (db : Fin n → Config (Fin n)) (i j : Fin n) : Prop := SdisEdge db i j ∨ BodyEdge db i j

def Reaches (db : Fin n → Config (Fin n)) : Fin n → Fin n → Prop := Relation.ReflTransGen (Edge db)

open Fallible

/-- A change of one record's value, limits or time stamp. -/
def Plain (f : Cells → Cells) : Prop :=
  ∀ c, ∃ val udf hihi high low lolo timeNs,
    f c = { c with val := val, udf := udf, hihi := hihi, high := high, low := low, lolo := lolo, timeNs := timeNs }

/-- A relation along which computations move, and where they may fail. -/
structure Flow (step : Pass n ω → Pass n ω → Prop) (may : Pass n ω → Prop) : Prop where
  refl : ∀ s, step s s
  trans : ∀ {s t u}, step s t → step t u → step s u
  back : ∀ {s t}, step s t → may t → may s

/-- The relation holds across the steps that leave `PACT` and the alarms alone. -/
structure Plainly (db : Fin n → Config (Fin n)) (step : Pass n ω → Pass n ω → Prop) (may : Pass n ω → Prop) :
    Prop extends Flow step may where
  plain : ∀ id f s, Plain f → step s (s.update id f)
  world : ∀ w s, step s { s with world := w }
  postMonitors : ∀ id changed s, step s (s.postMonitors db id changed)
  traceLine : ∀ id text s, step s (s.traceLine db id text)

/-- The relation holds across the body of a record, up to the calls. -/
structure Body (db : Fin n → Config (Fin n)) (own : Fin n) (step : Pass n ω → Pass n ω → Prop) (may : Pass n ω → Prop) :
    Prop extends Plainly db step may where
  out : ∀ {j field pp ms}, (db own).out = .db j field pp ms → ∀ value s, step s (s.write db j field value)
  contribute : ∀ sev cond s, sev ≠ .noAlarm → step s (s.contribute own sev cond).2
  ladder : ∀ s, step s (s.mark (.ladder own (s.cells own)))
  commit : ∀ s, step s (s.commit own).2

def Link.Yields {τ : Type} (kind : Kind) (value : Value) : Link τ → Prop
  | .constant v => value = v.coerceTo kind
  | .db _ field _ _ => ∃ c : Cells, value = (c.readField field).coerceTo kind
  | .unresolved _ => value = .defaultFor kind

/-- The relation holds across the disable check of a record, up to the calls. -/
structure Check (db : Fin n → Config (Fin n)) (own : Fin n) (step : Pass n ω → Pass n ω → Prop) (may : Pass n ω → Prop) :
    Prop extends Plainly db step may where
  disa : ∀ {value}, (db own).sdis.Yields .longIn value → ∀ s, step s (s.write db own .disa value)
  commitDisabled : ∀ s, step s (s.commitDisabled db own).2

theorem limitCrossed_raised {τ : Type} {cfg : Config τ} {c : Cells} {value : F64} {current : Condition} {sev : Severity}
    {cond : Condition} (found : limitCrossed cfg c value current = some (sev, cond)) : sev ≠ .noAlarm := by
  unfold limitCrossed crossed at found
  split_ifs at found with hihi lolo high low <;> cases found <;> simp_all

section

variable {db : Fin n → Config (Fin n)} {step strong : Pass n ω → Pass n ω → Prop} {may strongMay : Pass n ω → Prop}
  {own : Fin n}

/-- It is enough that the relation ignores the outside world, the events and the trace. -/
theorem Flow.plainly (flow : Flow step may) (plain : ∀ id f s, Plain f → step s (s.update id f))
    (advanced : ∀ id s, step s (s.update id (advance (db id))))
    (still : ∀ s world events trace, step s { s with world, events, trace }) : Plainly db step may where
  toFlow := flow
  plain := plain
  world w s := still s w s.events s.trace
  postMonitors id changed s := by
    unfold Pass.postMonitors
    simp only
    split_ifs
    · exact flow.refl s
    · exact flow.trans (advanced id s) (still _ _ _ _)
  traceLine id text s := by
    unfold Pass.traceLine
    split_ifs
    · exact still s _ _ _
    · exact flow.refl s

section

variable (weaker : ∀ {s t}, strong s t → step s t) (trans : ∀ {s t u}, step s t → step t u → step s u)
  (back : ∀ {s t}, step s t → may t → may s)

include weaker trans back

/-- A weaker relation holds across the same steps. -/
theorem Plainly.weaken (plainly : Plainly db strong strongMay) : Plainly db step may where
  refl s := weaker (plainly.refl s)
  trans := trans
  back := back
  plain id f s plain := weaker (plainly.plain id f s plain)
  world w s := weaker (plainly.world w s)
  postMonitors id changed s := weaker (plainly.postMonitors id changed s)
  traceLine id text s := weaker (plainly.traceLine id text s)

@[inherit_doc Plainly.weaken]
theorem Body.weaken (body : Body db own strong strongMay) : Body db own step may where
  toPlainly := body.toPlainly.weaken weaker trans back
  out link value s := weaker (body.out link value s)
  contribute sev cond s raised := weaker (body.contribute sev cond s raised)
  ladder s := weaker (body.ladder s)
  commit s := weaker (body.commit s)

@[inherit_doc Plainly.weaken]
theorem Check.weaken (check : Check db own strong strongMay) : Check db own step may where
  toPlainly := check.toPlainly.weaken weaker trans back
  disa yields s := weaker (check.disa yields s)
  commitDisabled s := weaker (check.commitDisabled s)

end

end

section

variable {db : Fin n → Config (Fin n)} {step : Pass n ω → Pass n ω → Prop} {may : Pass n ω → Prop} {own : Fin n}
  (s : Pass n ω)

theorem Plainly.write (plainly : Plainly db step may) (id : Fin n) {field : Field} (value : Value)
    (switchless : field ≠ .disa ∧ field ≠ .disv) : step s (s.write db id field value) := by
  cases field
  case val =>
    exact plainly.trans (plainly.plain id (fun c => { c with val := value.coerceTo (db id).kind, udf := false }) s
      fun c => ⟨_, false, c.hihi, c.high, c.low, c.lolo, c.timeNs, rfl⟩) (plainly.postMonitors id false _)
  case sevr | stat | proc => exact plainly.refl s
  case disa => exact absurd rfl switchless.1
  case disv => exact absurd rfl switchless.2
  case hihi => exact plainly.plain id _ s fun c => ⟨c.val, c.udf, _, c.high, c.low, c.lolo, c.timeNs, rfl⟩
  case high => exact plainly.plain id _ s fun c => ⟨c.val, c.udf, c.hihi, _, c.low, c.lolo, c.timeNs, rfl⟩
  case low => exact plainly.plain id _ s fun c => ⟨c.val, c.udf, c.hihi, c.high, _, c.lolo, c.timeNs, rfl⟩
  case lolo => exact plainly.plain id _ s fun c => ⟨c.val, c.udf, c.hihi, c.high, c.low, _, c.timeNs, rfl⟩

/-- Any write, for a relation that ignores the two fields that disable a record. -/
theorem Plainly.writeAny (plainly : Plainly db step may)
    (disa : ∀ id v s, step s (s.update id fun c => { c with disa := v }))
    (disv : ∀ id v s, step s (s.update id fun c => { c with disv := v })) (id : Fin n) (field : Field) (value : Value) :
    step s (s.write db id field value) := by
  by_cases isDisa : field = .disa
  · exact isDisa ▸ disa id value.asI32 s
  by_cases isDisv : field = .disv
  · exact isDisv ▸ disv id value.asI32 s
  exact plainly.write s id value ⟨isDisa, isDisv⟩

theorem Plainly.clearUdf (plainly : Plainly db step may) (id : Fin n) : step s (s.clearUdf id) :=
  plainly.plain id _ s fun c => ⟨c.val, false, c.hihi, c.high, c.low, c.lolo, c.timeNs, rfl⟩

section

variable (body : Body db own step may)

include body

theorem Body.receive (fetched : Value × Severity) : step s (s.receive own fetched) := by
  have stored := body.plain own (fun c => { c with val := fetched.1 }) s fun c =>
    ⟨fetched.1, c.udf, c.hihi, c.high, c.low, c.lolo, c.timeNs, rfl⟩
  unfold Pass.receive
  split_ifs with raised
  · exact body.trans stored (body.contribute _ _ _ raised)
  · exact stored

theorem Body.checkUdf : step s (s.checkUdf own).2 := by
  unfold Pass.checkUdf
  split_ifs
  · exact body.contribute _ _ s (by decide)
  · exact body.refl s

theorem Body.tryLadder : step s (s.tryLadder db own) := by
  have marked := body.ladder s
  unfold Pass.tryLadder
  simp only
  split
  next sev cond found => exact body.trans marked (body.contribute _ _ _ (limitCrossed_raised found))
  · exact marked

theorem Body.checkLimits : step s (s.checkLimits db own) := by
  have checked := body.checkUdf s
  unfold Pass.checkLimits
  simp only
  split_ifs
  · exact checked
  · exact body.trans checked (body.tryLadder _)

theorem Body.settle (host : Host n ω) : step s (s.settle db host own) := by
  have stamped : step s (s.stamp host own) := body.trans
    (body.plain own (fun c => { c with timeNs := (host.unixNanos s.world).1 }) s fun c =>
      ⟨c.val, c.udf, c.hihi, c.high, c.low, c.lolo, _, rfl⟩) (body.world (host.unixNanos s.world).2 _)
  have published (t : Pass n ω) : step t ((t.commit own).2.postMonitors db own (t.commit own).1) :=
    body.trans (body.commit t) (body.postMonitors own _ _)
  unfold Pass.settle
  simp only
  split_ifs
  · exact body.trans (body.trans stamped (body.checkLimits _)) (published _)
  · exact body.trans (body.trans stamped (body.checkUdf _)) (published _)

end

theorem Check.disable (check : Check db own step may) : step s (s.disable db own) :=
  check.trans (check.trans (check.traceLine own _ s) (check.commitDisabled _)) (check.postMonitors own _ _)

end

section

variable {db : Fin n → Config (Fin n)} {step : Pass n ω → Pass n ω → Prop} {may : Pass n ω → Prop} {id : Fin n}
  {process : Fin n → Action n ω Unit}

theorem readLink_returns {target : Fin n} {field : Field} {ms : Bool} {kind : Kind} (pp : Bool) :
    Returns (readLink target field ms kind : Action n ω (Value × Severity)) fun fetched =>
      (Link.db target field pp ms).Yields kind fetched.1 := by
  intro s fetched t result
  cases result
  exact ⟨s.cells target, rfl⟩

theorem fetchLinkValue_returns {link : Link (Fin n)} {kind : Kind} :
    Returns (fetchLinkValue process link kind) fun fetched => link.Yields kind fetched.1 := by
  cases link with
  | constant _ | unresolved _ => exact .pure rfl
  | db target field pp ms =>
    cases pp with
    | true => exact .skip fun _ => readLink_returns true
    | false => exact readLink_returns false

theorem fetchLinkValue_moves (flow : Flow step may) {link : Link (Fin n)} (kind : Kind)
    (calls : ∀ j, link.Processes j → Moves step may (process j)) :
    Moves step may (fetchLinkValue process link kind) := by
  cases link with
  | constant _ | unresolved _ => exact .pure flow.refl
  | db target field pp ms =>
    have read : Moves step may (readLink target field ms kind : Action n ω (Value × Severity)) :=
      fun s => .of_ok rfl (flow.refl s)
    cases pp with
    | true => exact Moves.bind flow.trans flow.back (calls target ⟨field, ms, rfl⟩) fun _ => read
    | false => exact read

theorem forwardLink_moves (flow : Flow step may) (calls : ∀ j, BodyEdge db id j → Moves step may (process j)) :
    Moves step may (forwardLink db id process) := by
  unfold forwardLink
  split
  next target field pp ms link => exact calls target (.flnk ⟨field, pp, ms, link⟩)
  all_goals exact .pure flow.refl

theorem inputBody_moves (body : Body db id step may) (input : (db id).kind.isOutput = false)
    (calls : ∀ j, BodyEdge db id j → Moves step may (process j)) : Moves step may (inputBody db id process) := by
  unfold inputBody
  split_ifs
  · exact .modify fun s => body.clearUdf s id
  · exact Moves.bind body.trans body.back (fetchLinkValue_moves body.toFlow _ fun j link => calls j (.inp input link))
      fun fetched => .modify fun s => body.trans (body.clearUdf s id) (body.receive _ fetched)

theorem driveOutput_moves (body : Body db id step may) (output : (db id).kind.isOutput = true)
    (calls : ∀ j, BodyEdge db id j → Moves step may (process j)) : Moves step may (driveOutput db id process) := by
  unfold driveOutput
  split_ifs with closed
  · simp only [Bool.and_eq_true] at closed
    exact Moves.bind body.trans body.back
      (fetchLinkValue_moves body.toFlow _ fun j link => calls j (.dol output closed.1 link))
      fun fetched => .modify fun s => body.receive s fetched
  · exact .pure body.refl

theorem writeOutput_moves (flow : Flow step may)
    (writes : ∀ {j field pp ms}, (db id).out = .db j field pp ms → ∀ value s, step s (s.write db j field value))
    (calls : ∀ j, (db id).out.Drives j → Moves step may (process j)) : Moves step may (writeOutput db id process) := by
  unfold writeOutput
  split
  next target field pp ms link =>
    have passive : Moves step may (if pp then process target else pure () : Action n ω Unit) := by
      split_ifs with pp
      · exact calls target ⟨field, _, ms, link, Or.inr pp⟩
      · exact .pure flow.refl
    have written (value : Value) : Moves step may (writeField db target process field value) := by
      unfold writeField
      split_ifs with proc
      · exact calls target ⟨field, pp, ms, link, Or.inl proc⟩
      · exact .modify (writes link value)
    have both (value : Value) : Moves step may (do
        writeField db target process field value
        if pp then process target : Action n ω Unit) := Moves.bind flow.trans flow.back (written value) fun _ => passive
    exact .bindGet fun s => both (s.cells id).val s
  all_goals exact .pure flow.refl

theorem transfer_moves (body : Body db id step may) (calls : ∀ j, BodyEdge db id j → Moves step may (process j)) :
    Moves step may (transfer db id process) := by
  unfold transfer
  cases kind : (db id).kind.isOutput with
  | true =>
    rw [if_pos rfl]
    exact Moves.bind body.trans body.back (driveOutput_moves body kind calls) fun _ =>
      Moves.bind body.trans body.back (.modify fun s => body.clearUdf s id) fun _ =>
        writeOutput_moves body.toFlow body.out fun j link => calls j (.out kind link)
  | false =>
    rw [if_neg Bool.false_ne_true]
    exact inputBody_moves body kind calls

theorem readSdis_moves (check : Check db id step may) (calls : ∀ j, SdisEdge db id j → Moves step may (process j)) :
    Moves step may (readSdis db id process) := by
  unfold readSdis
  split_ifs
  · exact .pure check.refl
  · exact (fetchLinkValue_moves check.toFlow _ calls).bindReturns check.trans check.back fetchLinkValue_returns
      fun fetched yields => .modify (check.disa yields)

end

/-- A relation that holds across every step of a pass, where the records entered are among
those of `reach`. -/
structure Uniform (db : Fin n → Config (Fin n)) (reach : Fin n → Prop) (step : Pass n ω → Pass n ω → Prop) :
    Prop where
  body : ∀ own, Body db own step fun _ => True
  check : ∀ own, Check db own step fun _ => True
  enter : ∀ id s, reach id → step s (s.enter id)
  popDepth : ∀ s, step s s.popDepth
  raisePact : ∀ id s, step s (s.raisePact id)
  join : ∀ started s, step s (s.join started)
  pending : ∀ id s, step s (s.mark (.pending id))
  giveUp : ∀ id s, step s (s.giveUp id)
  complete : ∀ id s, step s (s.complete id)

section

variable {db : Fin n → Config (Fin n)} (host : Host n ω) {reach : Fin n → Prop} {step : Pass n ω → Pass n ω → Prop}
  {id : Fin n} {process : Fin n → Action n ω Unit}

theorem finishBody_ends {may : Pass n ω → Prop} (body : Body db id step may)
    (calls : ∀ j, BodyEdge db id j → Moves step may (process j)) (s : Pass n ω) :
    ∃ t, step s t ∧ ((finishBody db host id process s).2 = t.giveUp id ∨
      (finishBody db host id process s).2 = t.complete id) := by
  have moved := (transfer_moves body calls s).moved
  rcases result : transfer db id process s with ⟨r, t⟩
  rw [result] at moved
  unfold finishBody
  cases r with
  | error e =>
    rw [bind_error (onError_error result)]
    exact ⟨t, moved, Or.inl rfl⟩
  | ok a =>
    rw [bind_ok (onError_ok result)]
    have settled := body.trans moved (body.settle t host)
    exact ⟨_, body.trans settled (forwardLink_moves body.toFlow calls _).moved, Or.inr rfl⟩

section

variable (check : Check db id step fun _ => True) (enabled : ∀ s, step s (recordBody db host id process s).2)

include check enabled

theorem runEnabled_checked : Moves step (fun _ => True) (runEnabled db host id process) := by
  refine .bindGet fun s => ⟨?_, fun _ _ => trivial⟩
  split_ifs
  · exact check.disable s
  · exact check.trans (enabled s) (check.traceLine id _ _)

/-- The disable check, and then the body of a record that is enabled. -/
theorem processInner_checked (calls : ∀ j, SdisEdge db id j → Moves step (fun _ => True) (process j)) :
    Moves step (fun _ => True) (processInner db host id process) :=
  Moves.bind check.trans check.back (.modify (check.traceLine id _)) fun _ =>
    Moves.bind check.trans check.back (readSdis_moves check calls) fun _ => runEnabled_checked host check enabled

end

section

variable (uniform : Uniform db reach step) (calls : ∀ j, BodyEdge db id j → Moves step (fun _ => True) (process j))

include uniform calls

theorem finishBody_step (s : Pass n ω) : step s (finishBody db host id process s).2 := by
  have body := uniform.body id
  obtain ⟨t, moved, ends | ends⟩ := finishBody_ends host body calls s
  · exact ends ▸ body.trans moved (uniform.giveUp id t)
  · exact ends ▸ body.trans moved (uniform.complete id t)

theorem recordBody_step (s : Pass n ω) : step s (recordBody db host id process s).2 := by
  have body := uniform.body id
  have finish := finishBody_step host uniform calls
  have raised := uniform.raisePact id s
  cases bound : host.asyncRegistry id with
  | none =>
    rw [recordBody_unbound bound]
    exact body.trans raised (finish _)
  | some support =>
    have joined := body.trans raised (uniform.join (support.start (db id).name (s.cells id).pact s.world) _)
    cases outcome : (support.start (db id).name (s.cells id).pact s.world).outcome with
    | pending =>
      rw [recordBody_bound bound, outcome]
      exact body.trans joined (uniform.pending id _)
    | complete =>
      rw [recordBody_bound bound, outcome]
      exact body.trans joined (finish _)

end

theorem processInner_moves (uniform : Uniform db reach step)
    (calls : ∀ j, Edge db id j → Moves step (fun _ => True) (process j)) :
    Moves step (fun _ => True) (processInner db host id process) :=
  processInner_checked host (uniform.check id) (recordBody_step host uniform fun j edge => calls j (Or.inr edge))
    fun j edge => calls j (Or.inl edge)

theorem nested_step (uniform : Uniform db reach step) (inside : reach id) {inner : Action n ω Unit}
    (moves : ∀ s, step s (inner s).2) (s : Pass n ω) : step s (nested db id inner s).2 := by
  have body := uniform.body id
  by_cases full : maxDepth ≤ s.depth
  · rw [nested_full full]
    exact body.refl s
  · rw [nested_room (by omega)]
    exact body.trans (body.trans (uniform.enter id s inside) (moves _)) (uniform.popDepth _)

theorem visit_step (uniform : Uniform db reach step) (closed : ∀ i j, reach i → Edge db i j → reach j)
    (fuel : Nat) (id : Fin n) (inside : reach id) (s : Pass n ω) : step s (visit db host fuel id s).2 := by
  induction fuel generalizing id s with
  | zero =>
    unfold visit guarded
    split_ifs
    · exact (uniform.body id).traceLine id _ s
    · exact (uniform.body id).refl s
  | succ fuel ih =>
    unfold visit guarded
    split_ifs
    · exact (uniform.body id).traceLine id _ s
    · exact nested_step uniform inside (fun t => (processInner_moves host uniform (fun j edge =>
        .of_moved (ih j (closed id j inside edge))) t).moved) s

end

end Spvirit.Ioc.Engine
