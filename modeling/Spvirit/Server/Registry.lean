import Spvirit.Server.Monitor

/-! The subscriptions of one process variable under any sequence of posts and client messages. -/

namespace Spvirit

/-- A connection's request number names one subscription. -/
structure PvMonitors where
  subs : List MonitorSub
  distinct : (subs.map MonitorSub.key).Nodup
  /-- The record of each subscription in its connection's tables. -/
  states : UInt64 × UInt32 → Option MonitorState

/-- What is done to the registry under its lock. -/
inductive Action where
  /-- The decisions of a fan-out. -/
  | post (clock : Int64 × Int32) (p : NtPayload)
  /-- The effect of a start, stop or acknowledgement. -/
  | control (key : UInt64 × UInt32) (isBe : Bool) (c : MonitorControl)
  /-- The decision on the payload fetched for a start. -/
  | snapshot (clock : Int64 × Int32) (key : UInt64 × UInt32) (p : NtPayload)

section

variable {β : Type} {key : UInt64 × UInt32} {clock : Int64 × Int32} {p : NtPayload}

/-- The subscriber's view of the payload is that of the last one sent to it. -/
def MonitorSub.unchanged (clock : Int64 × Int32) (sub : MonitorSub) (p : NtPayload) : Bool :=
  match sub.lastSnapshot with
  | none => false
  | some prev =>
    match sub.filteredDesc with
    | some desc => !ntPayloadChangedOnDesc clock prev p desc sub.isBe
    | none => prev.eq p

theorem buildMonitorFrame_eq (sub : MonitorSub) :
    buildMonitorFrame clock sub p = if sub.unchanged clock p then none else some (monitorFrame clock sub p) := by
  unfold buildMonitorFrame MonitorSub.unchanged monitorFrame
  cases sub.lastSnapshot with
  | none => cases sub.filteredDesc <;> rfl
  | some prev =>
    cases sub.filteredDesc with
    | none => cases same : prev.eq p <;> simp [same]
    | some desc => cases same : ntPayloadChangedOnDesc clock prev p desc sub.isBe <;> simp [same]

theorem MonitorSub.credit_of_unspent {sub : MonitorSub} (unspent : ¬ (sub.pipelineEnabled ∧ sub.nfree = 0)) :
    (!(sub.pipelineEnabled && decide (sub.nfree = 0))) = true := by
  cases pipelined : sub.pipelineEnabled with
  | false => rfl
  | true => simpa [pipelined] using unspent

/-- A payload is offered to one subscriber: it is sent or nothing happens. -/
theorem planFor_spec (sub : MonitorSub) :
    if sub.ready ∧ ¬ sub.unchanged clock p then
      ∃ f, planFor clock p sub = (sub.charge p, some f) ∧ (f.connId, f.ioid) = sub.key ∧
        f.pipelined = sub.pipelineEnabled ∧ f.encode clock p = monitorFrame clock sub p
    else planFor clock p sub = (sub, none) := by
  unfold planFor MonitorSub.ready
  dsimp only
  cases running : sub.running with
  | false => simp
  | true =>
    by_cases spent : sub.pipelineEnabled ∧ sub.nfree = 0
    · simp [spent]
    · have sends : (true && !(sub.pipelineEnabled && decide (sub.nfree = 0))) = true ∧ ¬ false = true := by
        simpa using MonitorSub.credit_of_unspent spent
      rw [buildMonitorFrame_eq]
      cases narrowed : sub.filteredDesc with
      | some desc =>
        cases same : sub.unchanged clock p with
        | true => simp [spent]
        | false =>
          rw [if_pos sends]
          exact ⟨⟨sub.connId, sub.ioid, sub.version, sub.isBe, sub.pipelineEnabled, some (monitorFrame clock sub p)⟩,
            by simp [spent], rfl, rfl, rfl⟩
      | none =>
        have same : sub.unchanged clock p = sub.lastSnapshot.any (·.eq p) := by
          unfold MonitorSub.unchanged
          rw [narrowed]
          cases sub.lastSnapshot <;> rfl
        rw [same]
        cases sub.lastSnapshot.any (·.eq p) with
        | true => simp [spent]
        | false =>
          rw [if_pos sends]
          exact ⟨⟨sub.connId, sub.ioid, sub.version, sub.isBe, sub.pipelineEnabled, none⟩, by simp [spent], rfl, rfl,
            by simp [PendingFrame.encode, monitorFrame, narrowed]⟩

theorem sendTo_spec (sub : MonitorSub) : sendTo clock p sub
    = if sub.ready ∧ ¬ sub.unchanged clock p then (sub.charge p, some (monitorFrame clock sub p, sub.pipelineEnabled))
      else (sub, none) := by
  unfold sendTo MonitorSub.ready
  rw [buildMonitorFrame_eq]
  cases sub.running with
  | false => simp
  | true =>
    by_cases spent : sub.pipelineEnabled ∧ sub.nfree = 0
    · simp [spent]
    · cases same : sub.unchanged clock p with
      | true => simp
      | false => simp [spent, MonitorSub.credit_of_unspent spent]

/-- The subscriber after it has been offered the payload. -/
def MonitorSub.offered (clock : Int64 × Int32) (p : NtPayload) (sub : MonitorSub) : MonitorSub :=
  if sub.ready ∧ ¬ sub.unchanged clock p then sub.charge p else sub

theorem planFor_fst (sub : MonitorSub) : (planFor clock p sub).1 = sub.offered clock p := by
  have spec := @planFor_spec clock p sub
  unfold MonitorSub.offered
  split_ifs at spec ⊢ with sends
  · obtain ⟨f, planned, _⟩ := spec
    rw [planned]
  · rw [spec]

theorem sendTo_fst (sub : MonitorSub) : (sendTo clock p sub).1 = sub.offered clock p := by
  rw [sendTo_spec, MonitorSub.offered]
  split_ifs <;> rfl

@[simp] theorem MonitorSub.offered_key (sub : MonitorSub) : (sub.offered clock p).key = sub.key := by
  unfold MonitorSub.offered
  split_ifs <;> rfl

theorem planFor_key (sub : MonitorSub) : (planFor clock p sub).1.key = sub.key := by
  rw [planFor_fst, MonitorSub.offered_key]

theorem sendTo_key (sub : MonitorSub) : (sendTo clock p sub).1.key = sub.key := by
  rw [sendTo_fst, MonitorSub.offered_key]

theorem atFirst_keys {change : MonitorSub → MonitorSub × Option β} (kept : ∀ sub, (change sub).1.key = sub.key)
    (subs : List MonitorSub) : (atFirst key change subs).1.map MonitorSub.key = subs.map MonitorSub.key := by
  induction subs with
  | nil => rfl
  | cons sub subs ih =>
    unfold atFirst
    split_ifs
    · simp [kept]
    · simp [ih]

theorem planFanout_keys (subs : List MonitorSub) :
    (planFanout clock subs p).1.map MonitorSub.key = subs.map MonitorSub.key := by
  simp [planFanout, Function.comp_def, planFor_key]

def lookup (subs : List MonitorSub) (key : UInt64 × UInt32) : Option MonitorSub := subs.find? fun sub => sub.key = key

theorem lookup_atFirst {change : MonitorSub → MonitorSub × Option β} (kept : ∀ sub, (change sub).1.key = sub.key)
    (subs : List MonitorSub) (other : UInt64 × UInt32) :
    lookup (atFirst other change subs).1 key
      = (lookup subs key).map fun sub => if other = key then (change sub).1 else sub := by
  unfold lookup
  induction subs with
  | nil => rfl
  | cons sub subs ih =>
    unfold atFirst
    by_cases here : sub.key = other <;> by_cases found : sub.key = key
    · subst here
      simp [kept, found]
    · have apart : other ≠ key := here ▸ found
      simp [kept, here, apart]
    · have apart : other ≠ key := fun same => here (found.trans same.symm)
      rw [if_neg here, List.find?_cons_of_pos (by simpa using found), List.find?_cons_of_pos (by simpa using found)]
      simp [apart]
    · simp [here, found, ih]

theorem atFirst_result {change : MonitorSub → MonitorSub × Option β} (subs : List MonitorSub) :
    (atFirst key change subs).2 = (lookup subs key).bind fun sub => (change sub).2 := by
  unfold lookup
  induction subs with
  | nil => rfl
  | cons sub subs ih =>
    unfold atFirst
    split_ifs with here
    · simp [here]
    · simp [here, ih]

theorem lookup_planFanout (subs : List MonitorSub) :
    lookup (planFanout clock subs p).1 key = (lookup subs key).map fun sub => (planFor clock p sub).1 := by
  unfold lookup planFanout
  rw [List.find?_map]
  simp [planFor_key]

end

namespace PvMonitors

variable {m : PvMonitors} {key : UInt64 × UInt32}

def step (m : PvMonitors) : Action → PvMonitors
  | .post clock p => { m with
      subs := (planFanout clock m.subs p).1
      distinct := by rw [planFanout_keys]; exact m.distinct }
  | .control key isBe c =>
    { subs := updateMonitorSubscription m.subs key (c.running (m.states key)) (c.nfree isBe) (some c.pipelineAck)
      distinct := by rw [updateMonitorSubscription, atFirst_keys fun _ => rfl]; exact m.distinct
      states := Function.update m.states key ((m.states key).map (MonitorState.apply isBe c)) }
  | .snapshot clock key p => { m with
      subs := (sendMonitorUpdateFor clock m.subs key p).1
      distinct := by rw [sendMonitorUpdateFor, atFirst_keys fun _ => sendTo_key _]; exact m.distinct }

def run (m : PvMonitors) (actions : List Action) : PvMonitors := actions.foldl step m

/-- The keys of the subscriptions a frame is sent to. -/
def frames (m : PvMonitors) : Action → List (UInt64 × UInt32)
  | .post clock p => (planFanout clock m.subs p).2.map fun f => (f.connId, f.ioid)
  | .control .. => []
  | .snapshot clock key p => ((sendMonitorUpdateFor clock m.subs key p).2.map fun _ => key).toList

def sub (m : PvMonitors) (key : UInt64 × UInt32) : Option MonitorSub := lookup m.subs key

end PvMonitors

/-- What an action does to one subscription, given its record at the connection. -/
def MonitorSub.react (state : Option MonitorState) (sub : MonitorSub) : Action → MonitorSub
  | .post clock p => sub.offered clock p
  | .control key isBe c =>
    if key = sub.key then sub.update (c.running state) (c.nfree isBe) (some c.pipelineAck) else sub
  | .snapshot clock key p => if key = sub.key then sub.offered clock p else sub

/-- Whether the action sends the subscription a frame. -/
def MonitorSub.sent (sub : MonitorSub) : Action → Bool
  | .post clock p => sub.ready ∧ ¬ sub.unchanged clock p
  | .control .. => false
  | .snapshot clock key p => key = sub.key ∧ sub.ready ∧ ¬ sub.unchanged clock p

namespace PvMonitors

variable {m : PvMonitors} {key : UInt64 × UInt32} {sub : MonitorSub}

theorem key_of_lookup {subs : List MonitorSub} (found : lookup subs key = some sub) : sub.key = key := by
  simpa using List.find?_some found

theorem sub_step (found : m.sub key = some sub) (a : Action) :
    (m.step a).sub key = some (sub.react (m.states key) a) := by
  have named := key_of_lookup found
  unfold PvMonitors.sub at found ⊢
  cases a with
  | post clock p =>
    change lookup (planFanout clock m.subs p).1 key = _
    rw [lookup_planFanout, found, Option.map_some, planFor_fst]
    rfl
  | control other isBe c =>
    change lookup (updateMonitorSubscription ..) key = _
    rw [updateMonitorSubscription, lookup_atFirst fun _ => rfl, found]
    by_cases here : other = key
    · subst here
      simp [MonitorSub.react, named]
    · simp [MonitorSub.react, named, here]
  | snapshot clock other p =>
    change lookup (sendMonitorUpdateFor ..).1 key = _
    rw [sendMonitorUpdateFor, lookup_atFirst fun _ => sendTo_key _, found]
    simp [MonitorSub.react, named, sendTo_fst]

theorem count_planFanout {subs : List MonitorSub} (distinct : (subs.map MonitorSub.key).Nodup) (clock : Int64 × Int32)
    (p : NtPayload) : ((planFanout clock subs p).2.map fun f => (f.connId, f.ioid)).count key
      = match lookup subs key with | some sub => if sub.ready ∧ ¬ sub.unchanged clock p then 1 else 0 | none => 0 := by
  unfold planFanout lookup
  induction subs with
  | nil => rfl
  | cons sub subs ih =>
    obtain ⟨apart, rest⟩ := List.nodup_cons.mp distinct
    have later := ih rest
    have spec := @planFor_spec clock p sub
    by_cases here : sub.key = key
    · have none : subs.find? (fun sub => sub.key = key) = none := by
        refine List.find?_eq_none.mpr fun other member => ?_
        have ne : other.key ≠ sub.key := fun same => apart (List.mem_map.mpr ⟨other, member, same⟩)
        simpa [← here] using ne
      rw [none] at later
      rw [List.find?_cons_of_pos (by simpa using here)]
      dsimp only at later ⊢
      split_ifs at spec ⊢ with sends
      · obtain ⟨f, planned, named, _⟩ := spec
        rw [List.filterMap_cons_some (by rw [planned]), List.map_cons, List.count_cons, later, named, here]
        simp
      · rw [List.filterMap_cons_none (by rw [spec]), later]
    · rw [List.find?_cons_of_neg (by simpa using here), ← later]
      split_ifs at spec with sends
      · obtain ⟨f, planned, named, _⟩ := spec
        rw [List.filterMap_cons_some (by rw [planned]), List.map_cons, List.count_cons, named]
        simp [here]
      · rw [List.filterMap_cons_none (by rw [spec])]

theorem count_frames (found : m.sub key = some sub) (a : Action) :
    (m.frames a).count key = if sub.sent a then 1 else 0 := by
  have named := key_of_lookup found
  unfold PvMonitors.sub at found
  cases a with
  | post clock p =>
    rw [frames, count_planFanout m.distinct, found]
    simp [MonitorSub.sent]
  | control other isBe c => rfl
  | snapshot clock other p =>
    rw [frames, sendMonitorUpdateFor, atFirst_result]
    by_cases here : other = key
    · subst here
      rw [found, Option.bind_some, sendTo_spec]
      by_cases sends : sub.ready ∧ ¬ sub.unchanged clock p
      · simp [MonitorSub.sent, sends, named]
      · have unsent : sub.sent (.snapshot clock other p) = false :=
          decide_eq_false fun both => sends both.2
        rw [if_neg sends, unsent]
        rfl
    · have nothing : (((lookup m.subs other).bind fun sub => (sendTo clock p sub).2).map fun _ => other).toList.count key = 0 := by
        cases (lookup m.subs other).bind fun sub => (sendTo clock p sub).2 <;> simp [here]
      rw [nothing]
      simp [MonitorSub.sent, named, here]

end PvMonitors

/-- A payload with one field. -/
def levelOf (n : Int8) : NtPayload := .generic "" [("level", .scalar (.i8 n))]

end Spvirit
