import Spvirit.Server.Connection
import Spvirit.Server.Registry

/-! A connection's record of its monitors, against the registry's. -/

namespace Spvirit

variable {connId : UInt64} {version : UInt8} {isBe : Bool} {s : Served} {ioid : UInt32}

/-- How many subscriptions of the request the registry has for a process variable. -/
def held (connId : UInt64) (monitors : Monitors) (ioid : UInt32) (name : String) : Nat :=
  (monitors name).countP fun sub => sub.key = (connId, ioid)

/-- The registry has the one subscription of a monitor, and none for a request that is not one. -/
def Recorded (connId : UInt64) (s : Served) (ioid : UInt32) : Prop :=
  if (s.conn.ioidToMonitor ioid).isSome then
    ∃ pv, s.conn.ioidToPv ioid = some pv ∧ ∀ name, held connId s.monitors ioid name = if name = pv then 1 else 0
  else ∀ name, held connId s.monitors ioid name = 0

def Agrees (connId : UInt64) (s : Served) : Prop := ∀ ioid, Recorded connId s ioid

theorem Recorded.transfer {s' : Served} (recorded : Recorded connId s ioid)
    (monitor : (s'.conn.ioidToMonitor ioid).isSome = (s.conn.ioidToMonitor ioid).isSome)
    (pv : s'.conn.ioidToPv ioid = s.conn.ioidToPv ioid)
    (same : ∀ name, held connId s'.monitors ioid name = held connId s.monitors ioid name) : Recorded connId s' ioid := by
  unfold Recorded at recorded ⊢
  rw [monitor, pv]
  simpa only [same] using recorded

theorem held_update (monitors : Monitors) (pv name : String) (list : List MonitorSub) :
    held connId (Function.update monitors pv list) ioid name
      = if name = pv then list.countP fun sub => sub.key = (connId, ioid) else held connId monitors ioid name := by
  unfold held
  by_cases here : name = pv
  · subst here
    simp
  · simp [here]

theorem held_append (monitors : Monitors) (pv name : String) (sub : MonitorSub) :
    held connId (Function.update monitors pv (monitors pv ++ [sub])) ioid name
      = held connId monitors ioid name + if name = pv ∧ sub.key = (connId, ioid) then 1 else 0 := by
  rw [held_update]
  by_cases here : name = pv
  · subst here
    by_cases own : sub.key = (connId, ioid)
    · simp [held, own, List.countP_append]
    · simp [held, own, List.countP_append]
  · simp [here]

theorem held_remove (monitors : Monitors) (pv name : String) (gone : UInt32) :
    held connId (removeMonitorSubscription connId monitors gone pv) ioid name
      = if name = pv ∧ ioid = gone then 0 else held connId monitors ioid name := by
  unfold removeMonitorSubscription
  rw [held_update]
  by_cases here : name = pv
  · subst here
    rw [if_pos rfl, List.countP_filter]
    by_cases own : ioid = gone
    · subst own
      rw [if_pos ⟨rfl, rfl⟩, List.countP_eq_zero]
      simp
    · rw [if_neg (fun both => own both.2)]
      refine List.countP_congr fun sub _ => ?_
      simp only [decide_not, Bool.and_eq_true, decide_eq_true_eq, Bool.not_eq_true', decide_eq_false_iff_not,
        and_iff_left_iff_imp]
      intro key other
      exact own (Prod.mk.inj (key.symm.trans other)).2
  · simp [here]

theorem countP_atFirst {β : Type} {key : UInt64 × UInt32} {change : MonitorSub → MonitorSub × Option β}
    (keeps : ∀ sub, (change sub).1.key = sub.key) (p : UInt64 × UInt32 → Bool) (subs : List MonitorSub) :
    (atFirst key change subs).1.countP (fun sub => p sub.key) = subs.countP fun sub => p sub.key := by
  induction subs with
  | nil => rfl
  | cons sub subs ih =>
    rw [atFirst]
    split
    · simp only [List.countP_cons, keeps]
    · simp only [List.countP_cons, ih]

theorem held_control (pv name : String) (c : MonitorControl) (answers : SourceAnswers) (other : UInt32) :
    held connId (monitorControl connId isBe s other pv c answers).monitors ioid name = held connId s.monitors ioid name := by
  have updates : ∀ list running nfree pipeline,
      (updateMonitorSubscription list (connId, other) running nfree pipeline).countP (fun sub => sub.key = (connId, ioid))
        = list.countP fun sub => sub.key = (connId, ioid) := fun list running nfree pipeline =>
    countP_atFirst (fun _ => rfl) (fun key => key = (connId, ioid)) list
  have sends : ∀ list clock p,
      (sendMonitorUpdateFor clock list (connId, other) p).1.countP (fun sub => sub.key = (connId, ioid))
        = list.countP fun sub => sub.key = (connId, ioid) := by
    intro list clock p
    refine countP_atFirst (fun sub => ?_) (fun key => key = (connId, ioid)) list
    rw [sendTo_spec]
    split <;> rfl
  unfold monitorControl
  dsimp only
  rw [held_update]
  by_cases here : name = pv
  · subst here
    rw [if_pos rfl]
    cases answers.snapshot with
    | none => exact updates _ _ _ _
    | some p =>
      dsimp only
      split
      · exact (sends _ _ _).trans (updates _ _ _ _)
      · exact updates _ _ _ _
  · rw [if_neg here]

/-- The message leaves the two records in agreement: an opened monitor is a new one, an
ended one runs on the channel's process variable, a destroyed channel has no monitor. -/
def Harmless (s : Served) : ClientMessage → Prop
  | .createChannel _ _ _ | .destroyRequest _ => True
  | .monitor sid ioid subcmd _ answers =>
    ∀ pv, s.conn.channels.sidToPv sid = some pv →
      if subcmd &&& 0x08 ≠ 0 then answers.fullDesc = none ∨ s.conn.ioidToMonitor ioid = none
      else if subcmd &&& 0x10 ≠ 0 then s.conn.ioidToMonitor ioid = none ∨ s.conn.ioidToPv ioid = some pv
      else True
  | .destroyChannel _ sid => ∀ ioid ∈ s.conn.channels.ioidsForSid sid, s.conn.ioidToMonitor ioid = none

theorem agrees_init {sid : UInt32} {pv : String} {subcmd : UInt8} {body : List UInt8} {answers : SourceAnswers}
    (agrees : Agrees connId s) :
    Agrees connId (monitorInit connId version isBe s sid ioid pv subcmd body answers) ↔
      answers.fullDesc = none ∨ s.conn.ioidToMonitor ioid = none := by
  unfold monitorInit
  cases answers.fullDesc with
  | none => simp [agrees]
  | some full =>
    dsimp only
    have key : ∀ other, (openedSub connId ioid version isBe subcmd body (applyPvRequestFilter full answers.requested).2).key
        = (connId, other) ↔ other = ioid := fun other => by simp [MonitorSub.key, openedSub, eq_comm]
    constructor
    · intro after
      refine Or.inr ?_
      by_contra open'
      have before := agrees ioid
      have now := after ioid
      unfold Recorded at before now
      rw [if_pos (Option.isSome_iff_ne_none.mpr open')] at before
      rw [if_pos (by simp)] at now
      obtain ⟨old, -, counts⟩ := before
      obtain ⟨new, isNew, counts'⟩ := now
      obtain rfl : pv = new := by simpa using isNew
      -- the old subscription is still there beside the new one
      have atOld := counts' old
      have atNew := counts' pv
      rw [held_append, counts] at atOld atNew
      simp only [key, and_true] at atOld atNew
      by_cases same : old = pv
      · subst same
        simp at atOld
      · simp [same] at atOld
    · rintro (absent | new) other
      · cases absent
      by_cases own : other = ioid
      · subst own
        have before := agrees other
        unfold Recorded at before ⊢
        rw [if_neg (by simp [new])] at before
        rw [if_pos (by simp)]
        refine ⟨pv, by simp, fun name => ?_⟩
        rw [held_append, before]
        simp [key]
      · refine (agrees other).transfer ?_ ?_ fun name => ?_
        · simp [own]
        · simp [own]
        · rw [held_append]
          simp [key, own]

theorem agrees_destroy {pv : String} (agrees : Agrees connId s) : Agrees connId (monitorDestroy connId s ioid pv) ↔
    s.conn.ioidToMonitor ioid = none ∨ s.conn.ioidToPv ioid = some pv := by
  unfold monitorDestroy
  have gone : Recorded connId ⟨{ s.conn.forget (· = ioid) with channels := s.conn.channels.unbindMonitor ioid },
      removeMonitorSubscription connId s.monitors ioid pv⟩ ioid ↔
        ∀ name, held connId (removeMonitorSubscription connId s.monitors ioid pv) ioid name = 0 := by
    unfold Recorded
    rw [if_neg (by simp [ConnState.forget])]
  constructor
  · intro after
    by_contra otherwise
    push Not at otherwise
    obtain ⟨monitored, elsewhere⟩ := otherwise
    have before := agrees ioid
    unfold Recorded at before
    rw [if_pos (Option.isSome_iff_ne_none.mpr monitored)] at before
    obtain ⟨old, isOld, counts⟩ := before
    have absent := gone.mp (after ioid) old
    have other : old ≠ pv := fun same => elsewhere (same ▸ isOld)
    rw [held_remove, if_neg (fun both => other both.1), counts, if_pos rfl] at absent
    cases absent
  · intro condition other
    by_cases own : other = ioid
    · subst own
      refine gone.mpr fun name => ?_
      rw [held_remove]
      by_cases here : name = pv
      · rw [if_pos ⟨here, rfl⟩]
      · rw [if_neg (fun both => here both.1)]
        have before := agrees other
        unfold Recorded at before
        rcases condition with absent | present
        · rw [if_neg (by simp [absent])] at before
          exact before name
        · split at before
          · obtain ⟨old, isOld, counts⟩ := before
            obtain rfl : pv = old := Option.some.inj (present.symm.trans isOld)
            rw [counts, if_neg here]
          · exact before name
    · refine (agrees other).transfer ?_ ?_ fun name => ?_
      · simp [ConnState.forget, own]
      · simp [ConnState.forget, own]
      · rw [held_remove, if_neg (fun both => own both.2)]

theorem agrees_control {pv : String} {c : MonitorControl} {answers : SourceAnswers} (agrees : Agrees connId s) :
    Agrees connId (monitorControl connId isBe s ioid pv c answers) := by
  intro other
  refine (agrees other).transfer ?_ rfl fun name => held_control pv name c answers ioid
  unfold monitorControl
  dsimp only
  by_cases own : other = ioid
  · subst own
    simp
  · simp [own]

theorem agrees_purge {cid sid : UInt32} (agrees : Agrees connId s) :
    Agrees connId { s with conn := purgeChannelRequests s.conn cid sid } ↔
      ∀ ioid ∈ s.conn.channels.ioidsForSid sid, s.conn.ioidToMonitor ioid = none := by
  constructor
  · intro after ioid bound
    by_contra monitored
    have before := agrees ioid
    have now := after ioid
    unfold Recorded at before now
    rw [if_pos (Option.isSome_iff_ne_none.mpr monitored)] at before
    rw [if_neg (by simp [purgeChannelRequests, ConnState.forget, bound])] at now
    obtain ⟨pv, -, counts⟩ := before
    have one := counts pv
    rw [now pv, if_pos rfl] at one
    cases one
  · intro absent other
    by_cases bound : other ∈ s.conn.channels.ioidsForSid sid
    · have before := agrees other
      unfold Recorded at before ⊢
      rw [if_neg (by simp [absent other bound])] at before
      rw [if_neg (by simp [purgeChannelRequests, ConnState.forget, bound])]
      exact before
    · refine (agrees other).transfer ?_ ?_ fun name => rfl
      · simp [purgeChannelRequests, ConnState.forget, bound]
      · simp [purgeChannelRequests, ConnState.forget, bound]

theorem agrees_handle_iff (agrees : Agrees connId s) (m : ClientMessage) :
    Agrees connId (handle connId version isBe s m) ↔ Harmless s m := by
  cases m with
  | createChannel cid sid pv => exact iff_of_true (fun ioid => (agrees ioid).transfer rfl rfl fun _ => rfl) trivial
  | destroyChannel cid sid => exact agrees_purge agrees
  | destroyRequest ioid =>
    refine iff_of_true ?_ trivial
    unfold handle
    dsimp only
    cases bound : s.conn.ioidToPv ioid with
    | none => exact agrees
    | some pv => exact (agrees_destroy agrees).mpr (Or.inr bound)
  | monitor sid ioid subcmd body answers =>
    unfold handle Harmless
    dsimp only
    cases known : s.conn.channels.sidToPv sid with
    | none => exact iff_of_true agrees (fun pv same => by cases same)
    | some pv =>
      dsimp only
      have only : ∀ P : String → Prop, (∀ name, some pv = some name → P name) ↔ P pv := fun P =>
        ⟨fun all => all pv rfl, fun holds name same => Option.some.inj same ▸ holds⟩
      rw [only, handleMonitor]
      split_ifs
      · exact agrees_init agrees
      · exact agrees_destroy agrees
      · exact iff_of_true (agrees_control agrees) trivial
      · exact iff_of_true agrees trivial

/-- A message, and the registry as other connections and fan-outs have left it before. -/
structure Turn where
  meanwhile : Monitors
  message : ClientMessage

def Served.before (s : Served) (turn : Turn) : Served := { s with monitors := turn.meanwhile }

section

variable (connId version isBe)

def Served.after (s : Served) (turn : Turn) : Served := handle connId version isBe (s.before turn) turn.message

/-- The others leave this connection's subscriptions where they are. -/
def Undisturbed : Served → List Turn → Prop
  | _, [] => True
  | s, turn :: turns =>
    (∀ ioid name, held connId turn.meanwhile ioid name = held connId s.monitors ioid name) ∧
      Undisturbed (s.after connId version isBe turn) turns

/-- After each message the records agree. -/
def AgreesThroughout : Served → List Turn → Prop
  | _, [] => True
  | s, turn :: turns =>
    Agrees connId (s.after connId version isBe turn) ∧ AgreesThroughout (s.after connId version isBe turn) turns

/-- No message does harm where it is handled. -/
def HarmlessThroughout : Served → List Turn → Prop
  | _, [] => True
  | s, turn :: turns =>
    Harmless (s.before turn) turn.message ∧ HarmlessThroughout (s.after connId version isBe turn) turns

end

theorem agreesThroughout_iff (turns : List Turn) (agrees : Agrees connId s) (others : Undisturbed connId version isBe s turns) :
    AgreesThroughout connId version isBe s turns ↔ HarmlessThroughout connId version isBe s turns := by
  induction turns generalizing s with
  | nil => exact Iff.rfl
  | cons turn turns ih =>
    have before : Agrees connId (s.before turn) := fun ioid => (agrees ioid).transfer rfl rfl fun name => others.1 ioid name
    have step := @agrees_handle_iff connId version isBe _ before turn.message
    constructor
    · rintro ⟨here, later⟩
      exact ⟨step.mp here, (ih here others.2).mp later⟩
    · rintro ⟨harmless, later⟩
      have here := step.mpr harmless
      exact ⟨here, (ih here others.2).mpr later⟩

/-- A new connection: the records agree after every message of a run exactly if no
message of it does harm. -/
theorem records_agree_iff (monitors : Monitors) (new : ∀ ioid name, held connId monitors ioid name = 0) (turns : List Turn)
    (others : Undisturbed connId version isBe ⟨.empty, monitors⟩ turns) :
    AgreesThroughout connId version isBe ⟨.empty, monitors⟩ turns ↔
      HarmlessThroughout connId version isBe ⟨.empty, monitors⟩ turns := by
  have agrees : Agrees connId ⟨.empty, monitors⟩ := by
    intro ioid
    unfold Recorded
    rw [if_neg (by simp [ConnState.empty])]
    exact new ioid
  exact agreesThroughout_iff turns agrees others

/-- A source that knows the process variable and has no value yet. -/
def knownPv : SourceAnswers := ⟨some ⟨none, []⟩, none, none, (0, 0)⟩

/-- The connection after a channel has been made, a monitor opened and started on it. -/
def monitored : Served :=
  [ClientMessage.createChannel 1 2 "X", .monitor 2 7 0x08 [] knownPv, .monitor 2 7 0x44 [] knownPv].foldl (handle 1 2 false)
    ⟨.empty, fun _ => []⟩

/-- The channel is destroyed, the subscription stays, and it is owed a frame for the next payload. -/
theorem destroyed_channel_keeps_subscription :
    let after := handle 1 2 false monitored (.destroyChannel 1 2)
    Agrees 1 monitored ∧ ¬ Agrees 1 after ∧ after.conn.ioidToMonitor 7 = none ∧ held 1 after.monitors 7 "X" = 1 ∧
      ∀ p clock, (planFanout clock (after.monitors "X") p).2.length = 1 := by
  intro after
  have agrees : Agrees 1 monitored := by
    have fresh : Agrees 1 ⟨.empty, fun _ => []⟩ := fun _ _ => rfl
    have made := (@agrees_handle_iff 1 2 false _ fresh (.createChannel 1 2 "X")).mpr trivial
    have opened := (@agrees_handle_iff 1 2 false _ made (.monitor 2 7 0x08 [] knownPv)).mpr fun _ _ => Or.inr rfl
    exact (@agrees_handle_iff 1 2 false _ opened (.monitor 2 7 0x44 [] knownPv)).mpr fun _ _ => trivial
  have open' : monitored.conn.ioidToMonitor 7 = some ⟨true, false, 0⟩ := rfl
  refine ⟨agrees, fun after => ?_, rfl, rfl, fun p clock => rfl⟩
  have absent := (agrees_handle_iff agrees (.destroyChannel 1 2)).mp after 7 (by decide)
  rw [open'] at absent
  cases absent

/-- A monitor that is opened and then given up by its request number. -/
def openedAndDestroyed : List Turn :=
  [⟨fun _ => [], .createChannel 1 2 "X"⟩, ⟨fun _ => [], .monitor 2 7 0x08 [] knownPv⟩,
    ⟨fun name => if name = "X" then [openedSub 1 7 2 false 0x08 [] none] else [], .destroyRequest 7⟩]

theorem records_agree_destroyed_request : AgreesThroughout 1 2 false ⟨.empty, fun _ => []⟩ openedAndDestroyed := by
  have others : Undisturbed 1 2 false ⟨.empty, fun _ => []⟩ openedAndDestroyed := by
    refine ⟨fun _ _ => rfl, fun _ _ => rfl, fun ioid name => ?_, trivial⟩
    by_cases here : name = "X"
    · subst here
      rfl
    · have other : (((⟨.empty, fun _ => []⟩ : Served).after 1 2 false ⟨fun _ => [], .createChannel 1 2 "X"⟩).after 1 2 false
          ⟨fun _ => [], .monitor 2 7 0x08 [] knownPv⟩).monitors name = [] := Function.update_of_ne here _ _
      unfold held
      rw [other]
      simp [here]
  exact (records_agree_iff _ (fun _ _ => rfl) _ others).mpr ⟨trivial, fun _ _ => Or.inr rfl, trivial, trivial⟩

end Spvirit
