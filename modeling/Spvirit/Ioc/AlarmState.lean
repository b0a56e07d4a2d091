import Spvirit.Ioc.Brake

/-! The alarm that a pass commits, and what it comes from. -/

namespace Spvirit.Ioc.Engine

open Fallible

variable {n : Nat} {ω : Type} {db : Fin n → Config (Fin n)} {host : Host n ω}

/-- The pending alarm of a record is what its pass contributed so far, nothing is pending for a
record that is not active, and every commit was of the worst contribution of its pass. -/
structure Tidy (s : Pass n ω) : Prop where
  pending : ∀ j, (s.cells j).pending = Alarm.worst (s.contributed j)
  idle : ∀ j, (s.cells j).pact = false → s.contributed j = []
  committed : ∀ id contributions alarm, .committed id contributions alarm ∈ s.log → alarm = Alarm.worst contributions

def Link.Maximizes {τ : Type} (link : Link τ) : Prop :=
  ∃ target field processPassive, link = .db target field processPassive true

/-- The output of the record cannot fail once the severity of its `DOL` was contributed. -/
def Harmless (db : Fin n → Config (Fin n)) (id : Fin n) : Prop :=
  (db id).kind.isOutput = true → (db id).closedLoop = true → (db id).dol.Maximizes → ∀ j, ¬(db id).out.Drives j

/-- Only such records were given up on. -/
def Spared (db : Fin n → Config (Fin n)) (marks : List (Mark n)) : Prop := ∀ id, .gaveUp id ∈ marks → Harmless db id

theorem spared_append {marks marks' : List (Mark n)} :
    Spared db (marks ++ marks') ↔ Spared db marks ∧ Spared db marks' := by
  simp only [Spared, List.mem_append, or_imp, forall_and]

/-- What a call leaves: the contributions of active records are untouched. -/
structure Accounts (db : Fin n → Config (Fin n)) (s t : Pass n ω) : Prop where
  pact : ∀ j, (t.cells j).pact = (s.cells j).pact
  log : ∃ marks, t.log = s.log ++ marks ∧ (Spared db marks → Tidy s →
    Tidy t ∧ ∀ j, (s.cells j).pact = true → t.contributed j = s.contributed j)

/-- The same for steps in the body of a record, which contribute to it. -/
def BodyAccounts (db : Fin n → Config (Fin n)) (own : Fin n) (s t : Pass n ω) : Prop :=
  (s.cells own).pact = true → (∀ j, (t.cells j).pact = (s.cells j).pact) ∧
    ∃ marks, t.log = s.log ++ marks ∧ (Spared db marks → Tidy s →
      Tidy t ∧ ∀ j, j ≠ own → (s.cells j).pact = true → t.contributed j = s.contributed j)

/-- The same for steps of the disable check of a record. -/
def CheckAccounts (db : Fin n → Config (Fin n)) (own : Fin n) (s t : Pass n ω) : Prop :=
  (s.cells own).pact = false → Accounts db s t

section

variable {own : Fin n} {s t u : Pass n ω}

theorem Accounts.trans (first : Accounts db s t) (second : Accounts db t u) : Accounts db s u := by
  obtain ⟨marks, log, kept⟩ := first.log
  obtain ⟨marks', log', kept'⟩ := second.log
  refine ⟨fun j => (second.pact j).trans (first.pact j), marks ++ marks', by rw [log', log, List.append_assoc], ?_⟩
  intro spared tidy
  obtain ⟨tidy, same⟩ := kept (spared_append.mp spared).1 tidy
  obtain ⟨tidy, same'⟩ := kept' (spared_append.mp spared).2 tidy
  exact ⟨tidy, fun j active => (same' j ((first.pact j).trans active)).trans (same j active)⟩

theorem Accounts.body (accounts : Accounts db s t) : BodyAccounts db own s t := by
  intro _
  obtain ⟨marks, log, kept⟩ := accounts.log
  exact ⟨accounts.pact, marks, log, fun spared tidy =>
    ⟨(kept spared tidy).1, fun j _ active => (kept spared tidy).2 j active⟩⟩

theorem BodyAccounts.trans (first : BodyAccounts db own s t) (second : BodyAccounts db own t u) :
    BodyAccounts db own s u := by
  intro active
  obtain ⟨pact, marks, log, kept⟩ := first active
  obtain ⟨pact', marks', log', kept'⟩ := second ((pact own).trans active)
  refine ⟨fun j => (pact' j).trans (pact j), marks ++ marks', by rw [log', log, List.append_assoc], ?_⟩
  intro spared tidy
  obtain ⟨tidy, same⟩ := kept (spared_append.mp spared).1 tidy
  obtain ⟨tidy, same'⟩ := kept' (spared_append.mp spared).2 tidy
  exact ⟨tidy, fun j other running => (same' j other ((pact j).trans running)).trans (same j other running)⟩

theorem CheckAccounts.trans (first : CheckAccounts db own s t) (second : CheckAccounts db own t u) :
    CheckAccounts db own s u :=
  fun idle => (first idle).trans (second (((first idle).pact own).trans idle))

theorem Accounts.of_same (log : t.log = s.log) (contributed : t.contributed = s.contributed)
    (cells : ∀ j, (t.cells j).pact = (s.cells j).pact ∧ (t.cells j).pending = (s.cells j).pending) :
    Accounts db s t := by
  refine ⟨fun j => (cells j).1, [], by rw [log, List.append_nil], fun _ tidy => ⟨⟨fun j => ?_, fun j idle => ?_, ?_⟩, ?_⟩⟩
  · rw [(cells j).2, contributed]
    exact tidy.pending j
  · rw [contributed]
    exact tidy.idle j ((cells j).1 ▸ idle)
  · rw [log]
    exact tidy.committed
  · exact fun j _ => by rw [contributed]

theorem accounts_update {id : Fin n} {f : Cells → Cells} (kept : ∀ c, (f c).pact = c.pact ∧ (f c).pending = c.pending) :
    Accounts db s (s.update id f) := by
  refine .of_same rfl rfl fun j => ?_
  by_cases same : j = id
  · subst same
    simpa [Pass.update] using kept (s.cells j)
  · simp [Pass.update, same]

end

theorem accounts_plainly (db : Fin n → Config (Fin n)) :
    Plainly db (Accounts db : Pass n ω → Pass n ω → Prop) fun _ => True := by
  have flow : Flow (Accounts db : Pass n ω → Pass n ω → Prop) fun _ => True :=
    ⟨fun _ => .of_same rfl rfl fun _ => ⟨rfl, rfl⟩, .trans, fun _ _ => trivial⟩
  refine flow.plainly (fun id f s plain => accounts_update fun c => ?_) (fun id s => accounts_update fun _ => ⟨rfl, rfl⟩)
    fun _ _ _ _ => .of_same rfl rfl fun _ => ⟨rfl, rfl⟩
  obtain ⟨_, _, _, _, _, _, _, eq⟩ := plain c
  rw [eq]
  exact ⟨rfl, rfl⟩

theorem accounts_write (id : Fin n) (field : Field) (value : Value) (s : Pass n ω) :
    Accounts db s (s.write db id field value) :=
  (accounts_plainly db).writeAny s (fun _ _ _ => accounts_update fun _ => ⟨rfl, rfl⟩)
    (fun _ _ _ => accounts_update fun _ => ⟨rfl, rfl⟩) id field value

section

variable {s : Pass n ω} (own : Fin n)

/-- A contribution is the worst so far only if it is worse than what is pending. -/
theorem tidy_contribute {sev : Severity} (cond : Condition) (raised : sev ≠ .noAlarm)
    (active : (s.cells own).pact = true) (tidy : Tidy s) : Tidy (s.contribute own sev cond).2 := by
  refine ⟨fun j => ?_, fun j idle => ?_, tidy.committed⟩
  · by_cases same : j = own
    · subst same
      simp only [Pass.contribute, Pass.update, Function.update_self, Cells.pending_setSevr, tidy.pending j]
      exact (Alarm.worst_append_singleton (sev, cond) raised _).symm
    · simpa [Pass.contribute, Pass.update, same] using tidy.pending j
  · by_cases same : j = own
    · subst same
      have kept : (((s.contribute j sev cond).2).cells j).pact = (s.cells j).pact := by
        simpa [Pass.contribute, Pass.update] using (setSevr_flags sev cond (s.cells j)).1
      rw [kept, active] at idle
      cases idle
    · simpa [Pass.contribute, Pass.update, same] using tidy.idle j (by simpa [Pass.contribute, Pass.update, same] using idle)

theorem resetAlarms_alarm (s : Pass n ω) : ((s.resetAlarms own).2.cells own).alarm = (s.cells own).pending := by
  simp [Pass.resetAlarms, Pass.update, Cells.resetAlarms, Cells.alarm, Cells.pending]

theorem tidy_commit (tidy : Tidy s) : Tidy (s.commit own).2 := by
  refine ⟨fun j => ?_, fun j idle => ?_, fun id contributions alarm member => ?_⟩
  · by_cases same : j = own
    · subst same
      simp [Pass.commit, Pass.resetAlarms, Pass.mark, Pass.update, Cells.resetAlarms, Cells.pending, Alarm.worst,
        Alarm.clear]
    · simpa [Pass.commit, Pass.resetAlarms, Pass.mark, Pass.update, same] using tidy.pending j
  · by_cases same : j = own
    · subst same
      simp [Pass.commit]
    · have kept : (s.cells j).pact = false := by
        simpa [Pass.commit, Pass.resetAlarms, Pass.mark, Pass.update, same] using idle
      simpa [Pass.commit, same] using tidy.idle j kept
  · rcases List.mem_append.mp (show _ ∈ s.log ++ [_] from member) with old | new
    · exact tidy.committed id contributions alarm old
    · cases List.mem_singleton.mp new
      exact (resetAlarms_alarm own s).trans (tidy.pending own)

theorem bodyAccounts_body : Body db own (BodyAccounts db own : Pass n ω → Pass n ω → Prop) fun _ => True where
  toPlainly := (accounts_plainly db).weaken Accounts.body BodyAccounts.trans fun _ _ => trivial
  out {j field _ _} _ value s := (accounts_write j field value s).body
  contribute sev cond s raised := by
    refine fun active => ⟨fun j => ?_, [], (List.append_nil _).symm, fun _ tidy =>
      ⟨tidy_contribute own cond raised active tidy, fun j other _ => ?_⟩⟩
    · by_cases same : j = own
      · subst same
        simpa [Pass.contribute, Pass.update] using (setSevr_flags sev cond (s.cells j)).1
      · simp [Pass.contribute, Pass.update, same]
    · simp [Pass.contribute, other]
  ladder s := by
    refine fun _ => ⟨fun _ => rfl, [.ladder own (s.cells own)], rfl, fun _ tidy => ⟨⟨tidy.pending, tidy.idle, ?_⟩, ?_⟩⟩
    · intro id contributions alarm member
      rcases List.mem_append.mp member with old | new
      · exact tidy.committed id contributions alarm old
      · cases List.mem_singleton.mp new
    · exact fun _ _ _ => rfl
  commit s := by
    refine fun _ => ⟨fun j => (resetAlarms_flags s own j).1, _, rfl, fun _ tidy => ⟨tidy_commit own tidy, ?_⟩⟩
    exact fun j other _ => Function.update_of_ne other _ _

/-- Nothing was contributed to a record that is not active, so that nothing is lost. -/
theorem tidy_commitDisabled (idle : (s.cells own).pact = false) (tidy : Tidy s) : Tidy (s.commitDisabled db own).2 := by
  have flags (j : Fin n) : ((s.commitDisabled db own).2.cells j).pact = (s.cells j).pact :=
    ((quiet_check db own).commitDisabled s).pact j
  refine ⟨fun j => ?_, fun j off => tidy.idle j ((flags j).symm.trans off), fun id contributions alarm member => ?_⟩
  · by_cases same : j = own
    · subst same
      have absent : s.contributed j = [] := tidy.idle j idle
      simp [Pass.commitDisabled, Pass.resetAlarms, Pass.mark, Pass.update, Cells.resetAlarms, Cells.pending, Alarm.worst,
        Alarm.clear, absent]
    · simpa [Pass.commitDisabled, Pass.resetAlarms, Pass.mark, Pass.update, same] using tidy.pending j
  · rcases List.mem_append.mp (show _ ∈ s.log ++ [_] from member) with old | new
    · exact tidy.committed id contributions alarm old
    · cases List.mem_singleton.mp new

theorem checkAccounts_check : Check db own (CheckAccounts db own : Pass n ω → Pass n ω → Prop) fun _ => True where
  toPlainly := (accounts_plainly db).weaken (fun accounts _ => accounts) CheckAccounts.trans fun _ _ => trivial
  disa {value} _ s := fun _ => accounts_write own .disa value s
  commitDisabled s := fun idle =>
    ⟨((quiet_check db own).commitDisabled s).pact, _, rfl, fun _ tidy =>
      ⟨tidy_commitDisabled own idle tidy, fun _ _ => rfl⟩⟩

end

section

variable {id : Fin n} {process : Fin n → Action n ω Unit} {s t : Pass n ω}

theorem fetchLinkValue_severity {link : Link (Fin n)} {kind : Kind} (plain : ¬link.Maximizes) :
    Returns (fetchLinkValue process link kind) fun fetched => fetched.2 = .noAlarm := by
  cases link with
  | constant _ | unresolved _ => exact .pure rfl
  | db target field pp ms =>
    have off : ms = false := by
      by_contra on
      exact plain ⟨target, field, pp, by rw [Bool.eq_true_of_not_eq_false on]⟩
    subst off
    have read : Returns (readLink target field false kind : Action n ω (Value × Severity))
        fun fetched => fetched.2 = .noAlarm := by
      intro s fetched t result
      cases result
      rfl
    cases pp with
    | true => exact .skip fun _ => read
    | false => exact read

/-- A value without a severity contributes nothing. -/
theorem accounts_receive {fetched : Value × Severity} (absent : fetched.2 = .noAlarm) (s : Pass n ω) :
    Accounts db s (s.receive id fetched) := by
  have stored : Accounts db s (s.update id fun c => { c with val := fetched.1 }) := accounts_update fun _ => ⟨rfl, rfl⟩
  have same : s.receive id fetched = s.update id fun c => { c with val := fetched.1 } := if_neg (not_not_intro absent)
  rwa [same]

/-- What fails before a contribution leaves the contributions alone. -/
theorem transfer_error (calls : ∀ j s, Accounts db s (process j s).2) (harmless : Harmless db id) {e : ProcError}
    (failed : transfer db id process s = (.error e, t)) : Accounts db s t := by
  have plainly := @accounts_plainly n ω db
  have fetch (link : Link (Fin n)) (kind : Kind) : Moves (Accounts db) (fun _ => True) (fetchLinkValue process link kind) :=
    fetchLinkValue_moves plainly.toFlow kind fun j _ => .of_moved (calls j)
  have fetched {link : Link (Fin n)} {kind : Kind} (stopped : fetchLinkValue process link kind s = (.error e, t)) :
      Accounts db s t := by
    have moved := (fetch link kind s).moved
    rwa [stopped] at moved
  unfold transfer at failed
  split_ifs at failed with output
  swap
  · unfold inputBody at failed
    split_ifs at failed
    · cases failed
    · rcases error_of_bind failed with stopped | ⟨a, u, _, stored⟩
      · exact fetched stopped
      · cases stored
  rcases error_of_bind failed with stopped | ⟨_, u, driven, later⟩
  · unfold driveOutput at stopped
    split_ifs at stopped
    · rcases error_of_bind stopped with stopped | ⟨a, u, _, stored⟩
      · exact fetched stopped
      · cases stored
    · cases stopped
  -- The output failed, so that it processes a record and the desired value had no severity.
  rcases error_of_bind later with impossible | ⟨_, v, cleared, written⟩
  · cases impossible
  have writes : Moves (Accounts db) (fun _ => ∃ j, (db id).out.Drives j) (writeOutput db id process) :=
    writeOutput_moves ⟨plainly.refl, plainly.trans, fun _ drives => drives⟩
      (fun {j field _ _} _ value s => accounts_write j field value s) fun j link s => ⟨calls j s, fun _ _ => ⟨j, link⟩⟩
  obtain ⟨wrote, drives⟩ := writes v
  rw [written] at wrote drives
  obtain ⟨j, drives⟩ := drives e rfl
  cases cleared
  refine Accounts.trans ?_ ((plainly.clearUdf u id).trans wrote)
  unfold driveOutput at driven
  split_ifs at driven with closed
  · simp only [Bool.and_eq_true] at closed
    have plain : ¬(db id).dol.Maximizes := fun maximizes => harmless output closed.1 maximizes j drives
    have moves : Moves (Accounts db) (fun _ => True) _ :=
      (fetch (db id).dol (db id).kind).bindReturns plainly.trans plainly.back (fetchLinkValue_severity plain)
        fun a absent => .modify (@accounts_receive n ω db id a absent)
    have moved := (moves s).moved
    rwa [driven] at moved
  · cases driven
    exact plainly.refl _

theorem tidy_close {m : Mark n} (other : ∀ i contributions alarm, m ≠ .committed i contributions alarm) (tidy : Tidy s)
    (absent : s.contributed id = []) : Tidy ((s.clearPact id).mark m) := by
  refine ⟨fun j => ?_, fun j off => ?_, fun i contributions alarm member => ?_⟩
  · by_cases same : j = id
    · subst same
      simpa [Pass.clearPact, Pass.mark, Pass.update, Cells.pending] using tidy.pending j
    · simpa [Pass.clearPact, Pass.mark, Pass.update, same] using tidy.pending j
  · by_cases same : j = id
    · rw [same]
      exact absent
    · exact tidy.idle j (by simpa [Pass.clearPact, Pass.mark, Pass.update, same] using off)
  · rcases List.mem_append.mp (show _ ∈ s.log ++ [m] from member) with old | new
    · exact tidy.committed i contributions alarm old
    · exact absurd (List.mem_singleton.mp new).symm (other i contributions alarm)

theorem settle_contributed (s : Pass n ω) : (s.settle db host id).contributed id = [] := by
  have posted (changed : Bool) (t : Pass n ω) : (t.postMonitors db id changed).contributed = t.contributed := by
    unfold Pass.postMonitors
    simp only
    split_ifs <;> rfl
  unfold Pass.settle
  simp only [posted]
  simp [Pass.commit]

theorem finishBody_accounts (calls : ∀ j s, Accounts db s (process j s).2) (active : (s.cells id).pact = true) :
    (∀ j, ((finishBody db host id process s).2.cells j).pact = if id = j then false else (s.cells j).pact) ∧
      ∃ marks, (finishBody db host id process s).2.log = s.log ++ marks ∧
        (Spared db marks → Tidy s → s.contributed id = [] → Tidy (finishBody db host id process s).2 ∧
          ∀ j, j ≠ id → (s.cells j).pact = true →
            (finishBody db host id process s).2.contributed j = s.contributed j) := by
  have body := @bodyAccounts_body n ω db id
  have inner (j : Fin n) (_ : BodyEdge db id j) : Moves (BodyAccounts db id) (fun _ => True) (process j) :=
    .of_moved fun s => (calls j s).body
  have moved := (transfer_moves body inner s).moved
  rcases result : transfer db id process s with ⟨r, t⟩
  rw [result] at moved
  obtain ⟨pact, marks, log, kept⟩ := moved active
  unfold finishBody
  cases r with
  | error e =>
    rw [bind_error (onError_error result)]
    refine ⟨fun j => ?_, marks ++ [.gaveUp id], ?_, fun spared tidy absent => ?_⟩
    · rw [show ((t.giveUp id).cells j).pact = _ from (clearPact_flags t id j).1, pact j]
    · rw [← List.append_assoc, ← log]
      rfl
    · obtain ⟨spared, own⟩ := spared_append.mp spared
      obtain ⟨tidy', same⟩ := kept spared tidy
      have harmless : Harmless db id := own id (List.mem_singleton_self _)
      obtain ⟨marks', log', kept'⟩ := (transfer_error calls harmless result).log
      have marksEq : marks' = marks := List.append_cancel_left (log'.symm.trans log)
      have left : t.contributed id = [] := ((kept' (marksEq ▸ spared) tidy).2 id active).trans absent
      exact ⟨tidy_close (by simp) tidy' left, same⟩
  | ok a =>
    rw [bind_ok (onError_ok result)]
    have settled := body.settle t host ((pact id).trans active)
    obtain ⟨pact', marks', log', kept'⟩ := settled
    have forwarded := (forwardLink_moves (accounts_plainly db).toFlow (fun j (_ : BodyEdge db id j) =>
      .of_moved (calls j)) (t.settle db host id)).moved
    obtain ⟨marks'', log'', kept''⟩ := forwarded.log
    have stillActive : ((t.settle db host id).cells id).pact = true := (pact' id).trans ((pact id).trans active)
    refine ⟨fun j => ?_, marks ++ (marks' ++ (marks'' ++ [.completed id])), ?_, fun spared tidy absent => ?_⟩
    · refine (clearPact_flags _ id j).1.trans ?_
      rw [forwarded.pact j, pact' j, pact j]
    · rw [← List.append_assoc, ← log, ← List.append_assoc, ← log', ← List.append_assoc, ← log'']
      rfl
    · simp only [spared_append] at spared
      obtain ⟨tidy₁, same₁⟩ := kept spared.1 tidy
      obtain ⟨tidy₂, same₂⟩ := kept' spared.2.1 tidy₁
      obtain ⟨tidy₃, same₃⟩ := kept'' spared.2.2.1 tidy₂
      refine ⟨tidy_close (by simp) tidy₃ ((same₃ id stillActive).trans (settle_contributed t)), fun j other running => ?_⟩
      have running₁ := (pact j).trans running
      have running₂ := (pact' j).trans running₁
      exact (same₃ j running₂).trans ((same₂ j other running₁).trans (same₁ j other running))

section

variable (unbound : host.Unbound) (calls : ∀ j s, Accounts db s (process j s).2) (idle : (s.cells id).pact = false)

include unbound calls idle

theorem recordBody_accounts : Accounts db s (recordBody db host id process s).2 := by
  rw [recordBody_unbound (unbound id)]
  have active : ((s.raisePact id).cells id).pact = true := by rw [(raisePact_flags s id id).1, if_pos rfl]
  obtain ⟨pact, marks, log, kept⟩ := @finishBody_accounts n ω db host id process _ calls active
  refine ⟨fun j => ?_, marks, log, fun spared tidy => ?_⟩
  · rw [pact j, (raisePact_flags s id j).1]
    by_cases same : id = j
    · rw [if_pos same, ← same, idle]
    · rw [if_neg same, if_neg same]
  · have cleared : (s.raisePact id).contributed = s.contributed := by
      refine (congrArg (Function.update s.contributed id) (tidy.idle id idle).symm).trans ?_
      exact Function.update_eq_self id s.contributed
    have raised : Tidy (s.raisePact id) := by
      refine ⟨fun j => ?_, fun j off => ?_, tidy.committed⟩
      · rw [cleared, ← tidy.pending j]
        by_cases same : j = id
        · subst same
          simp [Pass.raisePact, Pass.update, Cells.pending]
        · simp [Pass.raisePact, Pass.update, same]
      · rw [cleared]
        rw [(raisePact_flags s id j).1] at off
        split_ifs at off
        exact tidy.idle j off
    obtain ⟨tidy', same⟩ := kept spared raised (by rw [cleared]; exact tidy.idle id idle)
    refine ⟨tidy', fun j running => ?_⟩
    have other : j ≠ id := by
      rintro rfl
      rw [idle] at running
      cases running
    rw [same j other (by rw [(raisePact_flags s id j).1, if_neg other.symm, running]), cleared]

theorem processInner_accounts : Accounts db s (processInner db host id process s).2 :=
  (processInner_checked host (@checkAccounts_check n ω db id) (fun _ idle => recordBody_accounts unbound calls idle)
    (fun j _ => .of_moved fun s _ => calls j s) s).moved idle

end

theorem nested_accounts {inner : Action n ω Unit} (idle : (s.cells id).pact = false)
    (accounts : ∀ t, (t.cells id).pact = false → Accounts db t (inner t).2) : Accounts db s (nested db id inner s).2 := by
  by_cases full : maxDepth ≤ s.depth
  · rw [nested_full full]
    exact (accounts_plainly db).refl s
  · rw [nested_room (by omega)]
    obtain ⟨pact, marks, log, kept⟩ := accounts (s.enter id) idle
    refine ⟨pact, .entered id s.stack :: marks, ?_, fun spared tidy => ?_⟩
    · exact log.trans (List.append_assoc _ _ _)
    · have entered : Tidy (s.enter id) := by
        refine ⟨tidy.pending, tidy.idle, fun i contributions alarm member => ?_⟩
        rcases List.mem_append.mp (show _ ∈ s.log ++ [_] from member) with old | new
        · exact tidy.committed i contributions alarm old
        · cases List.mem_singleton.mp new
      obtain ⟨tidy', same⟩ := kept (fun i member => spared i (List.mem_cons_of_mem _ member)) entered
      exact ⟨⟨tidy'.pending, tidy'.idle, tidy'.committed⟩, same⟩

end

theorem visit_accounts (unbound : host.Unbound) (fuel : Nat) (id : Fin n) (s : Pass n ω) :
    Accounts db s (visit db host fuel id s).2 := by
  induction fuel generalizing id s with
  | zero =>
    unfold visit guarded
    split_ifs
    · exact (accounts_plainly db).traceLine id _ s
    · exact (accounts_plainly db).refl s
  | succ fuel ih =>
    unfold visit guarded
    split_ifs with active
    · exact (accounts_plainly db).traceLine id _ s
    · exact nested_accounts (Bool.eq_false_of_not_eq_true active) fun t idle => processInner_accounts unbound ih idle

/-- A sequence of passes, each from a record and with the world as it is then. -/
def passes (db : Fin n → Config (Fin n)) (host : Host n ω) : List (Fin n × ω) → (Fin n → Cells) → List (Pass n ω)
  | [], _ => []
  | (id, world) :: rest, cells =>
    let t := (process db host id (freshPass cells world)).2
    t :: passes db host rest t.cells

/-- No pass can fail after a severity of a link was contributed: either the output of such a record
processes nothing, or the lock set is small enough and its disable links do not lead back. -/
def Steady (db : Fin n → Config (Fin n)) : Prop := (∀ id, Harmless db id) ∨ n ≤ maxDepth ∧ DisableAcyclic db

/-- Between passes no record is active and no alarm is pending. -/
def Clean (cells : Fin n → Cells) : Prop := ∀ j, (cells j).pact = false ∧ (cells j).pending = .clear

theorem process_accounts (unbound : host.Unbound) (steady : Steady db) {cells : Fin n → Cells} (clean : Clean cells)
    (id : Fin n) (world : ω) :
    Tidy (process db host id (freshPass cells world)).2 ∧ Clean (process db host id (freshPass cells world)).2.cells := by
  have start : Tidy (freshPass cells world) := ⟨fun j => (clean j).2, fun _ _ => rfl, by simp [freshPass]⟩
  obtain ⟨pact, marks, log, kept⟩ := @visit_accounts n ω db host unbound maxDepth id (freshPass cells world)
  have spared : Spared db marks := by
    intro i member
    rcases steady with harmless | ⟨few, acyclic⟩
    · exact harmless i
    · have idle : Idle (freshPass cells world) := ⟨fun j => (clean j).1, rfl, rfl⟩
      obtain ⟨marks', log', fresh⟩ := (@process_brakes n ω db host id _ acyclic unbound few idle.rested).1.fresh
      have same : marks' = marks := List.append_cancel_left (log'.symm.trans log)
      exact absurd (fresh _ (same ▸ member)) (by simp [Mark.Fresh])
  obtain ⟨tidy, _⟩ := kept spared start
  refine ⟨tidy, fun j => ?_⟩
  have off : ((process db host id (freshPass cells world)).2.cells j).pact = false := (pact j).trans (clean j).1
  exact ⟨off, (tidy.pending j).trans (by rw [tidy.idle j off]; rfl)⟩

/-- In every sequence of passes, successful or failed, each commit is of the worst contribution of
its own pass, and nothing is pending after a pass. -/
theorem passes_commit_own_alarm (unbound : host.Unbound) (steady : Steady db) (runs : List (Fin n × ω))
    {cells : Fin n → Cells} (clean : Clean cells) : ∀ t ∈ passes db host runs cells, Clean t.cells ∧
      ∀ id contributions alarm, .committed id contributions alarm ∈ t.log → alarm = Alarm.worst contributions := by
  induction runs generalizing cells with
  | nil => simp [passes]
  | cons run rest ih =>
    obtain ⟨tidy, left⟩ := process_accounts unbound steady clean run.1 run.2
    intro t member
    rcases List.mem_cons.mp member with rfl | later
    · exact ⟨left, tidy.committed⟩
    · exact ih left t later

namespace OwnAlarm

/-- A record over its upper limit. -/
def records : Fin 1 → Config (Fin 1) := fun _ => { name := "A", kind := .longIn, hhsv := .major }

def cells : Fin 1 → Cells := fun _ => { val := .long 10, hihi := .ofInt 5 }

end OwnAlarm

theorem passes_commit_own_alarm_once :
    (∀ t ∈ passes OwnAlarm.records (plainHost 1) [(0, ())] OwnAlarm.cells, Clean t.cells ∧
      ∀ id contributions alarm, .committed id contributions alarm ∈ t.log → alarm = Alarm.worst contributions) ∧
      ((passes OwnAlarm.records (plainHost 1) [(0, ())] OwnAlarm.cells).map fun t => (t.cells 0).alarm) =
        [(.major, .hiHi)] := by
  refine ⟨passes_commit_own_alarm (fun _ => rfl) (Or.inl ?_) _ fun _ => ⟨rfl, rfl⟩, by decide +kernel⟩
  intro id output
  cases output

namespace LeftPending

/-- The first record takes its value from the second with its severity, and its output processes
the third, which waits for itself. -/
def records : Fin 3 → Config (Fin 3)
  | 0 => { name := "A", kind := .ao, closedLoop := true, dol := .db 1 .val false true, out := .db 2 .val true false }
  | 1 => { name := "B", kind := .ai }
  | 2 => { name := "C", kind := .ao, sdis := .db 2 .val true false }

def cells : Fin 3 → Cells := fun id => if id = 1 then { sevr := .major, stat := .hiHi } else {}

end LeftPending

theorem failed_pass_leaves_alarm_pending :
    (∀ j, (LeftPending.cells j).pact = false ∧ (LeftPending.cells j).pending = .clear) ∧
      ((passes LeftPending.records (plainHost 3) [(0, ())] LeftPending.cells).map fun t => (t.cells 0).pending) =
        [(.major, .link)] := by
  decide +kernel

end Spvirit.Ioc.Engine
