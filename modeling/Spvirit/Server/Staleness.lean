import Spvirit.Server.Registry

/-! What a subscriber that could be sent to has been sent last. -/

namespace Spvirit

namespace Action

def offers (key : UInt64 × UInt32) : Action → Option ((Int64 × Int32) × NtPayload)
  | .post clock p => some (clock, p)
  | .control .. => none
  | .snapshot clock other p => if other = key then some (clock, p) else none

/-- The action neither offers the subscription a payload nor starts it. -/
def quiet (key : UInt64 × UInt32) : Action → Bool
  | .post .. => false
  | .control other _ c => ¬ (other = key ∧ c.start)
  | .snapshot _ other _ => other ≠ key

end Action

/-- The connection's record of a subscription it has just opened. -/
def openedState (isBe : Bool) (subcmd : UInt8) (body : List UInt8) : MonitorState :=
  ⟨false, subcmd &&& 0x80 ≠ 0, requestedWindow isBe subcmd body⟩

/-- The subscriber has been sent the payload, or one that it cannot tell from it. -/
def MonitorSub.Shows (sub : MonitorSub) (clock : Int64 × Int32) (p : NtPayload) : Prop :=
  sub.lastSnapshot = some p ∨ sub.unchanged clock p = true

def MonitorSub.hasCredit (sub : MonitorSub) : Prop := sub.pipelineEnabled = false ∨ 0 < sub.nfree

theorem MonitorSub.ready_iff (sub : MonitorSub) : sub.ready = true ↔ sub.running = true ∧ sub.hasCredit := by
  unfold MonitorSub.ready MonitorSub.hasCredit
  cases sub.running <;> cases sub.pipelineEnabled <;> simp [Nat.pos_iff_ne_zero]

theorem MonitorSub.offered_shows {sub : MonitorSub} {clock : Int64 × Int32} {p : NtPayload} (running : sub.running = true) :
    (sub.offered clock p).Shows clock p ↔ sub.hasCredit ∨ sub.Shows clock p := by
  unfold MonitorSub.offered
  by_cases credit : sub.hasCredit
  · have ready := sub.ready_iff.mpr ⟨running, credit⟩
    simp only [credit, true_or, iff_true]
    split_ifs with sends
    · exact Or.inl rfl
    · exact Or.inr (by simpa [ready] using sends)
  · have spent : ¬ sub.ready = true := fun ready => credit (sub.ready_iff.mp ready).2
    simp [credit, spent]

namespace PvMonitors

variable {m : PvMonitors} {key : UInt64 × UInt32} {sub : MonitorSub}

/-- The subscription has just been opened. -/
def Opened (m : PvMonitors) (key : UInt64 × UInt32) : Prop :=
  ∃ version isBe subcmd body filter, m.sub key = some (openedSub key.1 key.2 version isBe subcmd body filter) ∧
    m.states key = some (openedState isBe subcmd body)

/-- The connection and the registry agree on whether the subscription runs. -/
structure Linked (m : PvMonitors) (key : UInt64 × UInt32) (sub : MonitorSub) : Prop where
  found : m.sub key = some sub
  recorded : ∃ state, m.states key = some state ∧ state.running = sub.running

theorem offered_running {clock : Int64 × Int32} {p : NtPayload} : (sub.offered clock p).running = sub.running := by
  unfold MonitorSub.offered
  split_ifs <;> rfl

theorem Linked.step (linked : m.Linked key sub) (a : Action) :
    (m.step a).Linked key (sub.react (m.states key) a) := by
  refine ⟨sub_step linked.found a, ?_⟩
  obtain ⟨state, recorded, agree⟩ := linked.recorded
  have named := key_of_lookup linked.found
  cases a with
  | post clock p => exact ⟨state, recorded, agree.trans offered_running.symm⟩
  | control other isBe c =>
    by_cases here : other = key
    · subst here
      refine ⟨state.apply isBe c, ?_, ?_⟩
      · simp [PvMonitors.step, recorded]
      · rw [MonitorSub.react, if_pos named.symm, recorded]
        rfl
    · refine ⟨state, ?_, ?_⟩
      · rw [← recorded]
        exact Function.update_of_ne (Ne.symm here) _ _
      · rw [MonitorSub.react, if_neg (named ▸ here)]
        exact agree
  | snapshot clock other p =>
    refine ⟨state, recorded, ?_⟩
    dsimp only [MonitorSub.react]
    split_ifs
    · exact agree.trans offered_running.symm
    · exact agree

theorem Linked.run (linked : m.Linked key sub) (actions : List Action) :
    ∃ sub', (m.run actions).Linked key sub' := by
  induction actions generalizing m sub with
  | nil => exact ⟨sub, linked⟩
  | cons a as ih => exact ih (linked.step a)

theorem Opened.linked (opened : m.Opened key) : ∃ sub, m.Linked key sub := by
  obtain ⟨version, isBe, subcmd, body, filter, found, recorded⟩ := opened
  exact ⟨_, found, _, recorded, rfl⟩

/-- What an action that offers nothing leaves as it is. -/
structure Passes (sub sub' : MonitorSub) : Prop where
  lastSnapshot : sub'.lastSnapshot = sub.lastSnapshot
  filteredDesc : sub'.filteredDesc = sub.filteredDesc
  isBe : sub'.isBe = sub.isBe
  running : sub'.running = true → sub.running = true

theorem Passes.shows {sub' : MonitorSub} (passes : Passes sub sub') (clock : Int64 × Int32) (p : NtPayload) :
    sub'.Shows clock p ↔ sub.Shows clock p := by
  unfold MonitorSub.Shows MonitorSub.unchanged
  rw [passes.lastSnapshot, passes.filteredDesc, passes.isBe]

theorem Passes.refl (sub : MonitorSub) : Passes sub sub := ⟨rfl, rfl, rfl, id⟩

theorem Passes.trans {a b c : MonitorSub} (first : Passes a b) (second : Passes b c) : Passes a c :=
  ⟨second.lastSnapshot.trans first.lastSnapshot, second.filteredDesc.trans first.filteredDesc,
    second.isBe.trans first.isBe, first.running ∘ second.running⟩

/-- Without a start the connection's record decides whether the subscription runs, and it did if it does. -/
theorem running_of_running {c : MonitorControl} {state : MonitorState} (notStart : c.start = false)
    (running : c.running (some state) = true) : state.running = true := by
  unfold MonitorControl.running at running
  rw [notStart] at running
  cases stop : c.stop <;> simp [stop] at running
  exact running

theorem Linked.quiet {a : Action} (linked : m.Linked key sub) (quiet : a.quiet key = true) :
    Passes sub (sub.react (m.states key) a) := by
  have named := key_of_lookup linked.found
  cases a with
  | post clock p => cases quiet
  | control other isBe c =>
    by_cases here : other = key
    · subst here
      have notStart : c.start = false := by simpa [Action.quiet] using quiet
      obtain ⟨state, recorded, agree⟩ := linked.recorded
      rw [MonitorSub.react, if_pos named.symm, recorded]
      exact ⟨rfl, rfl, rfl, fun running => agree ▸ running_of_running notStart running⟩
    · rw [MonitorSub.react, if_neg (named ▸ here)]
      exact .refl sub
  | snapshot clock other p =>
    have apart : other ≠ sub.key := named ▸ (by simpa [Action.quiet] using quiet)
    rw [MonitorSub.react, if_neg apart]
    exact .refl sub

theorem Linked.quietRun {actions : List Action} (linked : m.Linked key sub)
    (quiet : ∀ a ∈ actions, a.quiet key = true) : ∃ sub', (m.run actions).Linked key sub' ∧ Passes sub sub' := by
  induction actions generalizing m sub with
  | nil => exact ⟨sub, linked, .refl sub⟩
  | cons a actions ih =>
    obtain ⟨here, later⟩ := List.forall_mem_cons.mp quiet
    obtain ⟨sub', linked', passes⟩ := ih (linked.step a) later
    exact ⟨sub', linked', (linked.quiet here).trans passes⟩

theorem Linked.offer {a : Action} {clock : Int64 × Int32} {p : NtPayload} (linked : m.Linked key sub)
    (offer : a.offers key = some (clock, p)) : (m.step a).Linked key (sub.offered clock p) := by
  have next := linked.step a
  cases a with
  | post clock' p' =>
    cases offer
    exact next
  | control other isBe c => cases offer
  | snapshot clock' other p' =>
    dsimp only [Action.offers] at offer
    split_ifs at offer with here
    cases offer
    rwa [MonitorSub.react, if_pos (here.trans (key_of_lookup linked.found).symm)] at next

def justOpened (subcmd : UInt8) (body : List UInt8) : PvMonitors where
  subs := [openedSub 1 7 2 false subcmd body none]
  distinct := List.nodup_singleton _
  states _ := some (openedState false subcmd body)

theorem justOpened_opened (subcmd : UInt8) (body : List UInt8) : (justOpened subcmd body).Opened (1, 7) :=
  ⟨2, false, subcmd, body, none, rfl, rfl⟩

/-- A window of one: a start whose snapshot takes the only credit, a post, and an acknowledgement. -/
def lateAck : List Action :=
  [.control (1, 7) false ⟨0x44, []⟩, .snapshot (0, 0) (1, 7) (levelOf 1), .post (0, 0) (levelOf 2),
    .control (1, 7) false ⟨0x80, [1, 0, 0, 0]⟩]

/-- No pipeline: a post between a start and the snapshot that was fetched for it. -/
def lateSnapshot : List Action :=
  [.control (1, 7) false ⟨0x44, []⟩, .post (0, 0) (levelOf 2), .snapshot (0, 0) (1, 7) (levelOf 1)]

end PvMonitors

end Spvirit
