import Spvirit.Ioc.Brake
import Spvirit.Ioc.Trail

/-! Which shapes of links the recursion brake holds for. -/

namespace Spvirit.Ioc.Engine

open Fallible

section

variable {τ : Type}

namespace Link

/-- The link with a value of zero, which disables no record. -/
def tame : Link τ → Link τ
  | constant _ => constant (.long 0)
  | unresolved name => unresolved name
  | db target _ processPassive maximizeSeverity => db target .proc processPassive maximizeSeverity

/-- The output that processes the same record and writes to none. -/
def tameOut : Link τ → Link τ
  | constant v => constant v
  | unresolved name => unresolved name
  | db target field processPassive maximizeSeverity =>
    if field = .proc ∨ processPassive = true then db target .proc processPassive maximizeSeverity
    else constant (.long 0)

theorem tame_processes {link : Link τ} {target : τ} : link.tame.Processes target ↔ link.Processes target := by
  cases link <;> simp [tame, Processes]

theorem tame_names {link : Link τ} {target : τ} : link.tame.Names target ↔ link.Names target := by
  cases link <;> simp [tame, Names]

theorem tameOut_drives {link : Link τ} {target : τ} : link.tameOut.Drives target ↔ link.Drives target := by
  cases link with
  | constant _ | unresolved _ => simp [tameOut]
  | db other field pp ms =>
    simp only [tameOut]
    split_ifs with drives
    · constructor
      · rintro ⟨_, _, _, link, _⟩
        cases link
        exact ⟨field, pp, ms, rfl, drives⟩
      · rintro ⟨_, _, _, link, _⟩
        cases link
        exact ⟨.proc, pp, ms, rfl, Or.inl rfl⟩
    · constructor
      · rintro ⟨_, _, _, link, _⟩
        cases link
      · rintro ⟨_, _, _, link, driven⟩
        cases link
        exact absurd driven drives

end Link

def Config.tame (cfg : Config τ) : Config τ :=
  { cfg with
    sdis := cfg.sdis.tame
    flnk := cfg.flnk.tame
    inp := cfg.inp.tame
    out := cfg.out.tameOut
    dol := cfg.dol.tame }

end

variable {n : Nat} {ω : Type}

/-- The same records process the same records, for the disable check and in the body. -/
def SameShape (db db' : Fin n → Config (Fin n)) : Prop :=
  ∀ i j, (SdisEdge db i j ↔ SdisEdge db' i j) ∧ (BodyEdge db i j ↔ BodyEdge db' i j)

/-- The records with links that keep every record enabled. -/
def tamed (db : Fin n → Config (Fin n)) : Fin n → Config (Fin n) := fun i => (db i).tame

theorem tame_sameShape (db : Fin n → Config (Fin n)) : SameShape db (tamed db) := by
  refine fun i j => ⟨Link.tame_processes.symm, ?_, ?_⟩
  · rintro (⟨input, link⟩ | ⟨output, closed, link⟩ | ⟨output, link⟩ | link)
    · exact .inp input (Link.tame_processes.mpr link)
    · exact .dol output closed (Link.tame_processes.mpr link)
    · exact .out output (Link.tameOut_drives.mpr link)
    · exact .flnk (Link.tame_names.mpr link)
  · rintro (⟨input, link⟩ | ⟨output, closed, link⟩ | ⟨output, link⟩ | link)
    · exact .inp input (Link.tame_processes.mp link)
    · exact .dol output closed (Link.tame_processes.mp link)
    · exact .out output (Link.tameOut_drives.mp link)
    · exact .flnk (Link.tame_names.mp link)

theorem SameShape.disableAcyclic {db db' : Fin n → Config (Fin n)} (same : SameShape db db')
    (acyclic : DisableAcyclic db) : DisableAcyclic db' := by
  intro i j link reaches
  refine acyclic i j ((same i j).1.mpr link) (Relation.ReflTransGen.mono (fun k l edge => ?_) _ _ reaches)
  exact edge.imp (same k l).1.mpr (same k l).2.mpr

/-- What decides whether a record runs. -/
def Cells.switches (c : Cells) : Bool × Int32 × Int32 := (c.pact, c.disa, c.disv)

/-- No record is made active or disabled, nor the other way. -/
structure Switchless (s t : Pass n ω) : Prop where
  stack : t.stack = s.stack
  switches : ∀ j, (t.cells j).switches = (s.cells j).switches

namespace Switchless

variable {s t u : Pass n ω}

theorem refl (s : Pass n ω) : Switchless s s := ⟨rfl, fun _ => rfl⟩

theorem trans (first : Switchless s t) (second : Switchless t u) : Switchless s u :=
  ⟨second.stack.trans first.stack, fun j => (second.switches j).trans (first.switches j)⟩

theorem update {id : Fin n} {f : Cells → Cells} (kept : ∀ c, (f c).switches = c.switches) :
    Switchless s (s.update id f) := by
  refine ⟨rfl, fun j => ?_⟩
  by_cases same : j = id
  · subst same
    simpa [Pass.update] using kept (s.cells j)
  · simp [Pass.update, same]

end Switchless

theorem setSevr_switches (sev : Severity) (cond : Condition) (c : Cells) :
    (c.setSevr sev cond).2.switches = c.switches := by
  unfold Cells.setSevr
  split_ifs <;> rfl

theorem switchless_resetAlarms (s : Pass n ω) (id : Fin n) : Switchless s (s.resetAlarms id).2 := by
  have step : Switchless s (s.update id fun c => c.resetAlarms.2) := .update fun _ => rfl
  exact ⟨step.stack, step.switches⟩

theorem switchless_plainly (db : Fin n → Config (Fin n)) :
    Plainly db (Switchless : Pass n ω → Pass n ω → Prop) fun _ => True := by
  refine Flow.plainly ⟨.refl, .trans, fun _ _ => trivial⟩ (fun id f s plain => .update fun c => ?_)
    (fun id s => .update fun _ => rfl) fun _ _ _ _ => ⟨rfl, fun _ => rfl⟩
  obtain ⟨_, _, _, _, _, _, _, eq⟩ := plain c
  rw [eq]
  rfl

theorem switchless_body {db : Fin n → Config (Fin n)} {own : Fin n}
    (harmless : ∀ {j field pp ms}, (db own).out = .db j field pp ms → field ≠ .disa ∧ field ≠ .disv) :
    Body db own (Switchless : Pass n ω → Pass n ω → Prop) fun _ => True where
  toPlainly := switchless_plainly db
  out {j field _ _} link value s := (switchless_plainly db).write s j value (harmless link)
  contribute sev cond s _ := by
    have step : Switchless s (s.update own fun c => (c.setSevr sev cond).2) := .update (setSevr_switches sev cond)
    exact ⟨step.stack, step.switches⟩
  ladder s := ⟨rfl, fun _ => rfl⟩
  commit s := ⟨rfl, (switchless_resetAlarms s own).switches⟩

/-- These records are active and on the stack, and none is disabled. -/
structure Poised (flags : Fin n → Bool) (stack : List (Fin n)) (s : Pass n ω) : Prop where
  stack : s.stack = stack
  switches : ∀ j, (s.cells j).switches = (flags j, 0, 1)

namespace Poised

variable {flags : Fin n → Bool} {stack : List (Fin n)} {s t : Pass n ω} {id : Fin n}

theorem of_switchless (step : Switchless s t) (poised : Poised flags stack s) : Poised flags stack t :=
  ⟨step.stack.trans poised.stack, fun j => (step.switches j).trans (poised.switches j)⟩

theorem pact (poised : Poised flags stack s) (j : Fin n) : (s.cells j).pact = flags j :=
  congrArg Prod.fst (poised.switches j)

theorem enabled (poised : Poised flags stack s) (j : Fin n) : (s.cells j).disa ≠ (s.cells j).disv := by
  have switches := poised.switches j
  simp only [Cells.switches, Prod.mk.injEq] at switches
  rw [switches.2.1, switches.2.2]
  decide

theorem enter (poised : Poised flags stack s) (id : Fin n) : Poised flags (id :: stack) (s.enter id) :=
  ⟨congrArg (id :: ·) poised.stack, poised.switches⟩

theorem popDepth (poised : Poised flags (id :: stack) s) : Poised flags stack s.popDepth :=
  ⟨congrArg List.tail poised.stack, poised.switches⟩

theorem raisePact (poised : Poised flags stack s) (id : Fin n) :
    Poised (Function.update flags id true) stack (s.raisePact id) := by
  refine ⟨poised.stack, fun j => ?_⟩
  by_cases same : j = id
  · subst same
    have switches := poised.switches j
    simp only [Cells.switches, Prod.mk.injEq] at switches
    simp [Pass.raisePact, Pass.update, Cells.switches, switches.2]
  · simpa [Pass.raisePact, Pass.update, same] using poised.switches j

theorem clearPact (poised : Poised (Function.update flags id true) stack s) (idle : flags id = false) :
    Poised flags stack (s.clearPact id) := by
  refine ⟨poised.stack, fun j => ?_⟩
  have switches := poised.switches j
  by_cases same : j = id
  · subst same
    simp only [Cells.switches, Prod.mk.injEq] at switches
    simp [Pass.clearPact, Pass.update, Cells.switches, switches.2, idle]
  · simpa [Pass.clearPact, Pass.update, same] using switches

theorem mark (poised : Poised flags stack s) (m : Mark n) : Poised flags stack (s.mark m) :=
  ⟨poised.stack, poised.switches⟩

/-- The active records and the stack are as they were. -/
def Keeps (flags : Fin n → Bool) (stack : List (Fin n)) (s t : Pass n ω) : Prop :=
  Poised flags stack s → Poised flags stack t

end Poised

section

variable (db : Fin n → Config (Fin n)) {host : Host n ω} {flags : Fin n → Bool} {stack : List (Fin n)}

theorem tame_harmless {own j : Fin n} {field : Field} {pp ms : Bool} (link : (tamed db own).out = .db j field pp ms) :
    field ≠ .disa ∧ field ≠ .disv := by
  revert link
  change (db own).out.tameOut = _ → _
  cases (db own).out with
  | constant _ | unresolved _ => simp [Link.tameOut]
  | db target field' pp' ms' =>
    simp only [Link.tameOut]
    split_ifs
    · rintro ⟨⟩
      decide
    · simp

theorem keeps_body (own : Fin n) :
    Body (tamed db) own (Poised.Keeps flags stack : Pass n ω → Pass n ω → Prop) fun _ => True :=
  (switchless_body (tame_harmless db)).weaken (fun step poised => poised.of_switchless step)
    (fun first second poised => second (first poised)) fun _ _ => trivial

theorem keeps_check (own : Fin n) :
    Check (tamed db) own (Poised.Keeps flags stack : Pass n ω → Pass n ω → Prop) fun _ => True where
  toPlainly := (keeps_body db own).toPlainly
  disa {value} yields s poised := by
    have zero : value.asI32 = 0 := by
      revert yields
      change (db own).sdis.tame.Yields _ _ → _
      cases (db own).sdis with
      | constant _ | unresolved _ =>
        rintro rfl
        rfl
      | db target field pp ms =>
        rintro ⟨c, rfl⟩
        rfl
    refine ⟨poised.stack, fun j => ?_⟩
    have switches := poised.switches j
    by_cases same : j = own
    · subst same
      simp only [Cells.switches, Prod.mk.injEq] at switches
      simp [Pass.write, Pass.update, Cells.switches, switches, zero]
    · simpa [Pass.write, Pass.update, same] using switches
  commitDisabled s poised := by
    have silenced : Switchless s (s.update own fun c =>
        (Cells.setSevr (tamed db own).diss .disable { c with nsev := .noAlarm, nsta := .noAlarm }).2) :=
      .update fun c => setSevr_switches _ _ { c with nsev := .noAlarm, nsta := .noAlarm }
    have committed := silenced.trans (switchless_resetAlarms _ own)
    exact poised.of_switchless ⟨committed.stack, committed.switches⟩

end

section

variable {db : Fin n → Config (Fin n)} {host : Host n ω} {flags : Fin n → Bool} {stack : List (Fin n)} {id : Fin n}
  {process : Fin n → Action n ω Unit} {s : Pass n ω}

/-- Whatever the result, the active records and the stack are as they were. -/
def Preserves (process : Fin n → Action n ω Unit) : Prop :=
  ∀ flags stack j, Moves (Poised.Keeps flags stack) (fun _ => True) (process j)

theorem finishBody_keeps (calls : Preserves process) (idle : flags id = false)
    (poised : Poised (Function.update flags id true) stack s) :
    Poised flags stack (finishBody (tamed db) host id process s).2 := by
  have body := @keeps_body n ω db (Function.update flags id true) stack id
  obtain ⟨t, moved, ends | ends⟩ := finishBody_ends host body (fun j _ => calls _ _ j) s
  · exact ends ▸ ((moved poised).clearPact idle).mark (.gaveUp id)
  · exact ends ▸ ((moved poised).clearPact idle).mark (.completed id)

theorem processInner_keeps (unbound : host.Unbound) (calls : Preserves process) (idle : flags id = false)
    (poised : Poised flags stack s) : Poised flags stack (processInner (tamed db) host id process s).2 := by
  refine (processInner_checked host (@keeps_check n ω db flags stack id) (fun s poised => ?_)
    (fun j _ => calls _ _ j) s).moved poised
  rw [recordBody_unbound (unbound id)]
  exact finishBody_keeps calls idle (poised.raisePact id)

theorem visit_preserves (unbound : host.Unbound) (fuel : Nat) : Preserves (visit (tamed db) host fuel) := by
  induction fuel with
  | zero =>
    refine fun flags stack id => .of_moved fun s poised => ?_
    unfold visit guarded
    split_ifs
    · exact (keeps_check db id).traceLine id _ s poised
    · exact poised
  | succ fuel ih =>
    refine fun flags stack id => .of_moved fun s poised => ?_
    unfold visit guarded
    split_ifs with active
    · exact (keeps_check db id).traceLine id _ s poised
    · have idle : flags id = false := by
        rw [← poised.pact id]
        simpa using active
      by_cases full : maxDepth ≤ s.depth
      · rw [nested_full full]
        exact poised
      · rw [nested_room (by omega)]
        exact (processInner_keeps unbound ih idle (poised.enter id)).popDepth

end

/-- A path to another point leaves its start for good. -/
theorem exists_last_leave {α : Type} {r : α → α → Prop} {y x : α} (reaches : Relation.ReflTransGen r y x) (apart : y ≠ x) :
    ∃ z, r y z ∧ z ≠ y ∧ Relation.ReflTransGen (fun a b => r a b ∧ b ≠ y) z x := by
  have split (a : α) (path : Relation.ReflTransGen r a x) :
      (a ≠ y ∧ Relation.ReflTransGen (fun a b => r a b ∧ b ≠ y) a x) ∨
        ∃ z, r y z ∧ z ≠ y ∧ Relation.ReflTransGen (fun a b => r a b ∧ b ≠ y) z x := by
    induction path using Relation.ReflTransGen.head_induction_on with
    | refl => exact Or.inl ⟨apart.symm, .refl⟩
    | @head a b step _ ih =>
      rcases ih with ⟨avoids, rest⟩ | later
      · by_cases start : a = y
        · exact Or.inr ⟨b, start ▸ step, avoids, rest⟩
        · exact Or.inl ⟨start, .head ⟨step, avoids⟩ rest⟩
      · exact Or.inr later
  exact (split y reaches).resolve_left fun first => first.1 rfl

section

variable {db : Fin n → Config (Fin n)} {host : Host n ω} {flags : Fin n → Bool} {stack : List (Fin n)} {id j : Fin n}
  {process : Fin n → Action n ω Unit} {s : Pass n ω} {bad : Mark n → Prop}

theorem tame_drives (edge : (tamed db id).out.Drives j) : ∃ pp ms, (tamed db id).out = .db j .proc pp ms := by
  obtain ⟨field, pp, ms, link, _⟩ := edge
  revert link
  change (db id).out.tameOut = _ → ∃ pp ms, (db id).out.tameOut = _
  cases (db id).out with
  | constant _ | unresolved _ => simp [Link.tameOut]
  | db target field' pp' ms' =>
    simp only [Link.tameOut]
    split_ifs
    · rintro ⟨⟩
      exact ⟨_, _, rfl⟩
    · simp

theorem finishBody_shows_edge (calls : Preserves process) (grows : ∀ j s, Grows s (process j s).2)
    (edge : BodyEdge (tamed db) id j) (shows : ∀ t, Poised flags stack t → Shows bad True (process j) t)
    (poised : Poised flags stack s) : Shows bad True (finishBody (tamed db) host id process) s := by
  have body := @keeps_body n ω db flags stack id
  cases edge with
  | inp input link =>
    refine finishBody_shows grows ?_
    unfold transfer
    rw [if_neg (by simp [input])]
    exact inputBody_shows link (shows s poised)
  | dol output closed link =>
    exact finishBody_shows grows (transfer_shows_drive grows output (driveOutput_shows closed link (shows s poised)))
  | out output link =>
    obtain ⟨pp, ms, link⟩ := tame_drives link
    have moved := (driveOutput_moves body output (fun j _ => calls _ _ j) s).moved poised
    rcases result : driveOutput (tamed db) id process s with ⟨r, t⟩
    rw [result] at moved
    refine finishBody_shows grows ?_
    cases r with
    | error e => exact transfer_shows_drive grows output (.of_error trivial result)
    | ok a => exact transfer_shows_write grows output result link (shows _ (body.clearUdf t id moved))
  | flnk link =>
    have moved := (transfer_moves body (fun j _ => calls _ _ j) s).moved poised
    rcases result : transfer (tamed db) id process s with ⟨r, t⟩
    rw [result] at moved
    cases r with
    | error e => exact finishBody_shows grows (.of_error trivial result)
    | ok a => exact finishBody_shows_forward result (forwardLink_shows link (shows _ (body.settle t host moved)))

theorem processInner_shows_edge (unbound : host.Unbound) (calls : Preserves process)
    (grows : ∀ j s, Grows s (process j s).2) (edge : Edge (tamed db) id j)
    (shows : ∀ flags', (∀ i, i ≠ id → flags' i = flags i) → ∀ t, Poised flags' stack t → Shows bad True (process j) t)
    (poised : Poised flags stack s) : Shows bad True (processInner (tamed db) host id process) s := by
  have check := @keeps_check n ω db flags stack id
  have traced := check.traceLine id ": process entered" s poised
  rcases edge with edge | edge
  · exact processInner_shows_check grows edge (shows flags (fun _ _ => rfl) _ traced)
  · have moved := (readSdis_moves check (fun j _ => calls _ _ j) _).moved traced
    rcases result : readSdis (tamed db) id process (s.traceLine (tamed db) id ": process entered") with ⟨r, t⟩
    rw [result] at moved
    cases r with
    | error e =>
      exact Shows.next rfl (Shows.bind (.of_error trivial result) fun _ => runEnabled_grows grows)
    | ok a =>
      refine processInner_shows_body (unbound id) result (moved.enabled id) ?_
      refine finishBody_shows_edge calls grows edge (shows _ fun i other => ?_) (moved.raisePact id)
      exact Function.update_of_ne other _ _

/-- The record is on the stack that it was entered over. -/
def Mark.Reenters : Mark n → Prop
  | entered id stack => id ∈ stack
  | pending _ | completed _ | gaveUp _ | ladder _ _ | committed _ _ _ | disabled _ _ => False

/-- A pass over records that lead to one on the stack enters it again, or fails. -/
theorem visit_trips (unbound : host.Unbound) {x : Fin n} (clear : Finset (Fin n)) (y : Fin n) (start : y ∈ clear)
    (path : Relation.ReflTransGen (fun a b => Edge (tamed db) a b ∧ b ∈ clear) y x) (fuel : Nat) (flags : Fin n → Bool)
    (stack : List (Fin n)) (s : Pass n ω) (idle : ∀ v ∈ clear, flags v = false) (below : x ∈ stack)
    (poised : Poised flags stack s) : Shows Mark.Reenters True (visit (tamed db) host fuel y) s := by
  induction clear using Finset.strongInduction generalizing y fuel flags stack s with
  | H clear ih =>
    have off : (s.cells y).pact = false := (poised.pact y).trans (idle y start)
    cases fuel with
    | zero =>
      refine .of_error (e := .tooDeep maxDepth (tamed db y).name) (t := s) trivial ?_
      unfold visit guarded
      rw [if_neg (by simp [off])]
      rfl
    | succ fuel =>
      by_cases full : maxDepth ≤ s.depth
      · refine .of_error (e := .tooDeep maxDepth (tamed db y).name) (t := s) trivial ?_
        unfold visit guarded
        rw [if_neg (by simp [off]), nested_full full]
      · refine visit_shows off (by omega) ?_
        by_cases same : y = x
        · subst same
          refine shows_of_grows (t := s.enter y) (List.mem_append_right _ (List.mem_singleton_self _)) ?_
            (processInner_moves host (Grows.uniform _) (fun j _ => .of_moved (visit_grows fuel j)) _).moved
          rw [poised.stack]
          exact below
        · obtain ⟨z, ⟨edge, inside⟩, apart, rest⟩ := exists_last_leave path same
          refine processInner_shows_edge unbound (visit_preserves unbound fuel) (visit_grows fuel) edge
            (fun flags' others t poised => ?_) (poised.enter y)
          refine ih (clear.erase y) (Finset.erase_ssubset start) z (Finset.mem_erase.mpr ⟨apart, inside⟩) ?_ fuel flags' _ t
            (fun v member => ?_) (List.mem_cons_of_mem _ below) poised
          · exact Relation.ReflTransGen.mono (fun a b step => ⟨step.1.1, Finset.mem_erase.mpr ⟨step.2, step.1.2⟩⟩) _ _ rest
          · obtain ⟨other, member⟩ := Finset.mem_erase.mp member
            exact (others v other).trans (idle v member)

end

/-- No record was entered while an earlier entry of it was on the stack. -/
def ReentersNone (s t : Pass n ω) : Prop :=
  ∃ marks, t.log = s.log ++ marks ∧ ∀ id stack, Mark.entered id stack ∈ marks → id ∉ stack

theorem EntersFresh.reentersNone {s t : Pass n ω} (fresh : EntersFresh s t) : ReentersNone s t := by
  obtain ⟨marks, log, fresh⟩ := fresh
  exact ⟨marks, log, fun id stack member => fresh _ member⟩

/-- Every pass over idle records without device support returns, and enters no record that is on the stack. -/
def CyclesBraked (db : Fin n → Config (Fin n)) : Prop :=
  ∀ (ω : Type) (host : Host n ω), host.Unbound → ∀ s, Idle s → ∀ id,
    (process db host id s).1 = .ok () ∧ ReentersNone s (process db host id s).2

/-- A disable link that leads back to its record is not braked. -/
theorem disableAcyclic_of_cyclesBraked {db : Fin n → Config (Fin n)} (braked : CyclesBraked (tamed db)) :
    DisableAcyclic (tamed db) := by
  intro x y edge reaches
  let s : Pass n Unit := { cells := fun _ => {}, world := () }
  have unbound : (plainHost n).Unbound := fun _ => rfl
  have poised : Poised (fun _ => false) [] s := ⟨rfl, fun _ => rfl⟩
  have shows : Shows Mark.Reenters True (visit (tamed db) (plainHost n) maxDepth x) s := by
    refine visit_shows rfl (show 0 < maxDepth by decide) (processInner_shows_check (visit_grows _) edge ?_)
    refine visit_trips unbound Finset.univ y (Finset.mem_univ y) ?_ _ _ _ _ (fun _ _ => rfl)
      (List.mem_singleton_self x) ((keeps_check db x).traceLine x _ _ (poised.enter x))
    exact Relation.ReflTransGen.mono (fun a b step => ⟨step, Finset.mem_univ b⟩) _ _ reaches
  obtain ⟨ok, marks, log, fresh⟩ := braked Unit (plainHost n) unbound s ⟨fun _ => rfl, rfl, rfl⟩ x
  rcases shows with ⟨_, e, failed⟩ | ⟨mark, listed, bad⟩
  · cases ok.symm.trans failed
  · rw [show (visit (tamed db) (plainHost n) maxDepth x s).2.log = [] ++ marks from log, List.nil_append] at listed
    cases mark with
    | entered id stack => exact fresh id stack listed bad
    | _ => exact bad

/-- The shapes of links for which the brake holds are those without a disable link that leads
back to its record. -/
theorem cyclesBraked_iff_disableAcyclic (few : n ≤ maxDepth) (db : Fin n → Config (Fin n)) :
    (∀ db', SameShape db db' → CyclesBraked db') ↔ DisableAcyclic db := by
  constructor
  · intro braked
    refine SameShape.disableAcyclic (fun i j => ?_) (disableAcyclic_of_cyclesBraked (braked _ (tame_sameShape db)))
    exact ⟨(tame_sameShape db i j).1.symm, (tame_sameShape db i j).2.symm⟩
  · intro acyclic db' same ω host unbound s idle id
    obtain ⟨braked, _⟩ := @process_brakes n ω db' host id s (same.disableAcyclic acyclic) unbound few idle.rested
    exact ⟨braked.ok, braked.fresh.reentersNone⟩

namespace OwnCheck

/-- A record that reads another and so processes it, and is processed again by its forward link. -/
def ring : Fin 2 → Config (Fin 2)
  | 0 => { name := "A", kind := .ai, inp := .db (Fin.last 1) .val true false }
  | 1 => { name := "B", kind := .ai, flnk := .db (Fin.last 0).castSucc .val true false }

/-- A record that is processed for its own disable check. -/
def records : Fin 1 → Config (Fin 1) := fun _ => { name := "A", kind := .ai, sdis := .db 0 .val true false }

def start : Pass 1 Unit := { cells := fun _ => {}, world := () }

end OwnCheck

theorem cyclesBraked_iff_disableAcyclic_ring :
    (∀ db', SameShape OwnCheck.ring db' → CyclesBraked db') ∧
      ¬ ∀ db', SameShape OwnCheck.records db' → CyclesBraked db' := by
  refine ⟨(cyclesBraked_iff_disableAcyclic (by decide) OwnCheck.ring).mpr ?_, fun braked => ?_⟩
  · rintro i j ⟨field, ms, link⟩
    fin_cases i <;> cases link
  · exact (cyclesBraked_iff_disableAcyclic (by decide) OwnCheck.records).mp braked 0 0 ⟨.val, false, rfl⟩ .refl

/-- The record waits for itself until the depth is used up. -/
theorem own_disable_check_recurses :
    Idle OwnCheck.start ∧ (plainHost 1).Unbound ∧
      (process OwnCheck.records (plainHost 1) 0 OwnCheck.start).1 = .error (.tooDeep maxDepth "A") :=
  ⟨⟨fun _ => rfl, rfl, rfl⟩, fun _ => rfl, by decide +kernel⟩

end Spvirit.Ioc.Engine
