import Spvirit.Server.Registry

/-! The credit of a pipelined subscription against the balance of frames sent
and acknowledged. -/

namespace Spvirit

/-- The count an action acknowledges to a subscription. -/
def Action.acknowledged (key : UInt64 × UInt32) : Action → Option Nat
  | .control other isBe c => if other = key then c.nfree isBe else none
  | .post .. | .snapshot .. => none

/-- A frame costs one; an acknowledgement adds its count, up to the ceiling. -/
def settle (balance sent : Nat) : Option Nat → Nat
  | some v => min (balance - sent + v) maxPipelineWindow
  | none => balance - sent

namespace PvMonitors

variable {m : PvMonitors} {key : UInt64 × UInt32} {sub : MonitorSub}

def balance (key : UInt64 × UInt32) (m : PvMonitors) (b : Nat) : List Action → Nat
  | [] => b
  | a :: as => balance key (m.step a) (settle b ((m.frames a).count key) (a.acknowledged key)) as

/-- The credit that gates sending. -/
def nfree (m : PvMonitors) (key : UInt64 × UInt32) : Nat := ((m.sub key).map (·.nfree)).getD 0

/-- At every point of the history the registry's credit is the balance. -/
def Conserved (m : PvMonitors) (key : UInt64 × UInt32) (b : Nat) (actions : List Action) : Prop :=
  ∀ before after, actions = before ++ after → (m.run before).nfree key = m.balance key b before

/-- Every acknowledgement comes when the credit is spent, or carries the ceiling. -/
def AckedWhenSpent (m : PvMonitors) (key : UInt64 × UInt32) (actions : List Action) : Prop :=
  ∀ before a after v, actions = before ++ a :: after → a.acknowledged key = some v →
    (m.run before).nfree key = 0 ∨ maxPipelineWindow ≤ v

theorem conserved_cons (b : Nat) (a : Action) (as : List Action) : m.Conserved key b (a :: as) ↔
    m.nfree key = b ∧ (m.step a).Conserved key (settle b ((m.frames a).count key) (a.acknowledged key)) as := by
  constructor
  · exact fun conserved => ⟨conserved [] (a :: as) rfl, fun before after split =>
      conserved (a :: before) after (by rw [split, List.cons_append])⟩
  · rintro ⟨start, rest⟩ before after split
    rcases List.cons_eq_append_iff.mp split with ⟨rfl, _⟩ | ⟨later, rfl, tail⟩
    · exact start
    · exact rest later after tail

theorem ackedWhenSpent_cons (a : Action) (as : List Action) : m.AckedWhenSpent key (a :: as) ↔
    (∀ v, a.acknowledged key = some v → m.nfree key = 0 ∨ maxPipelineWindow ≤ v) ∧ (m.step a).AckedWhenSpent key as := by
  constructor
  · exact fun spent => ⟨fun v acked => spent [] a as v rfl acked, fun before a' after v split acked =>
      spent (a :: before) a' after v (by rw [split, List.cons_append]) acked⟩
  · rintro ⟨here, rest⟩ before a' after v split acked
    rcases List.cons_eq_append_iff.mp split with ⟨rfl, same⟩ | ⟨later, rfl, tail⟩
    · obtain ⟨rfl, rfl⟩ := List.cons.inj same
      exact here v acked
    · exact rest later a' after v tail acked

theorem offered_pipelined {clock : Int64 × Int32} {p : NtPayload} :
    (sub.offered clock p).pipelineEnabled = sub.pipelineEnabled := by
  unfold MonitorSub.offered
  split_ifs <;> rfl

theorem react_pipelined (pipelined : sub.pipelineEnabled = true) (state : Option MonitorState) (a : Action) :
    (sub.react state a).pipelineEnabled = true := by
  cases a with
  | post clock p => exact offered_pipelined.trans pipelined
  | control other isBe c =>
    dsimp only [MonitorSub.react]
    split_ifs
    · simp [MonitorSub.update, pipelined]
    · exact pipelined
  | snapshot clock other p =>
    dsimp only [MonitorSub.react]
    split_ifs
    · exact offered_pipelined.trans pipelined
    · exact pipelined

theorem offered_nfree (pipelined : sub.pipelineEnabled = true) (clock : Int64 × Int32) (p : NtPayload) :
    (sub.offered clock p).nfree = sub.nfree - if sub.ready ∧ ¬ sub.unchanged clock p then 1 else 0 := by
  unfold MonitorSub.offered
  split_ifs with sends
  · have credit : 0 < sub.nfree := by
      have ready := sends.1
      unfold MonitorSub.ready at ready
      simp only [pipelined, Bool.true_and, Bool.and_eq_true, Bool.not_eq_true', decide_eq_false_iff_not] at ready
      omega
    simp [MonitorSub.charge, pipelined, credit]
  · rfl

/-- One action: it costs what it sends, and a count replaces what is left. -/
theorem react_nfree (pipelined : sub.pipelineEnabled = true) (state : Option MonitorState) (a : Action) :
    (sub.react state a).nfree = match a.acknowledged sub.key with
      | some v => min v maxPipelineWindow
      | none => sub.nfree - if sub.sent a then 1 else 0 := by
  cases a with
  | post clock p => simpa [MonitorSub.react, Action.acknowledged, MonitorSub.sent] using offered_nfree pipelined clock p
  | control other isBe c =>
    by_cases here : other = sub.key
    · rw [MonitorSub.react, if_pos here, Action.acknowledged, if_pos here]
      rfl
    · simp [MonitorSub.react, Action.acknowledged, here, MonitorSub.sent]
  | snapshot clock other p =>
    by_cases here : other = sub.key
    · simpa [MonitorSub.react, Action.acknowledged, MonitorSub.sent, here] using offered_nfree pipelined clock p
    · simp [MonitorSub.react, Action.acknowledged, MonitorSub.sent, here]

theorem sent_of_acknowledged {a : Action} {v : Nat} (acked : a.acknowledged key = some v) : sub.sent a = false := by
  cases a with
  | control => rfl
  | post | snapshot => cases acked

theorem replaced_eq_added (b v : Nat) :
    min v maxPipelineWindow = min (b - 0 + v) maxPipelineWindow ↔ b = 0 ∨ maxPipelineWindow ≤ v := by
  omega

theorem conserved_iff (found : m.sub key = some sub) (pipelined : sub.pipelineEnabled = true) (actions : List Action) :
    m.Conserved key sub.nfree actions ↔ m.AckedWhenSpent key actions := by
  have named := key_of_lookup found
  have credit : m.nfree key = sub.nfree := by rw [nfree, found]; rfl
  induction actions generalizing m sub with
  | nil =>
    refine iff_of_true (fun before after split => ?_) fun before a after v split => ?_
    · obtain ⟨rfl, rfl⟩ := List.append_eq_nil_iff.mp split.symm
      exact credit
    · simp at split
  | cons a as ih =>
    have found' := sub_step found a
    have credit' : (m.step a).nfree key = (sub.react (m.states key) a).nfree := by rw [nfree, found']; rfl
    have after := react_nfree pipelined (m.states key) a
    rw [named] at after
    have rest := ih found' (react_pipelined pipelined _ a) (key_of_lookup found') credit'
    rw [conserved_cons, ackedWhenSpent_cons, count_frames found]
    rw [show (m.step a).AckedWhenSpent key as = _ from propext rest.symm]
    cases acked : a.acknowledged key with
    | none =>
      rw [acked] at after
      simp only [settle, reduceCtorEq, false_implies, implies_true, true_and, credit]
      rw [after]
    | some v =>
      rw [acked] at after
      dsimp only at after
      rw [sent_of_acknowledged acked]
      have first : (m.step a).Conserved key (settle sub.nfree 0 (some v)) as →
          min v maxPipelineWindow = min (sub.nfree - 0 + v) maxPipelineWindow := fun conserved => by
        have start := conserved [] as rfl
        rw [show (m.step a).run [] = m.step a from rfl, credit', after] at start
        exact start
      simp only [Option.some.injEq, forall_eq', credit, ← replaced_eq_added, true_and, Bool.false_eq_true, if_false]
      constructor
      · intro conserved
        refine ⟨first conserved, ?_⟩
        rw [after, first conserved]
        exact conserved
      · rintro ⟨same, conserved⟩
        rw [after, same] at conserved
        exact conserved

/-- The credit of a subscription opened with a window follows the balance through a
history of any actions exactly when no acknowledgement comes before the window is
used up: its count replaces what is left of the credit. -/
theorem credit_conserved_iff {version subcmd : UInt8} {isBe : Bool} {body : List UInt8} {filter : Option StructureDesc}
    (opened : m.sub key = some (openedSub key.1 key.2 version isBe subcmd body filter)) (pipelined : subcmd &&& 0x80 ≠ 0)
    (window : 4 ≤ body.length) (actions : List Action) :
    m.Conserved key (min (countAt isBe (body.drop (body.length - 4))) maxPipelineWindow) actions ↔
      m.AckedWhenSpent key actions := by
  have start := conserved_iff opened (by simp [openedSub, pipelined]) actions
  rwa [openedSub, requestedWindow, if_pos ⟨pipelined, window⟩] at start

def windowOfFour : PvMonitors where
  subs := [openedSub 1 7 2 false 0x88 [4, 0, 0, 0] none]
  distinct := List.nodup_singleton _
  states _ := some ⟨false, true, 4⟩

def startMessage : Action := .control (1, 7) false ⟨0x44, []⟩

def ackMessage (count : UInt8) : Action := .control (1, 7) false ⟨0x80, [count, 0, 0, 0]⟩

/-- After one of the four frames is acknowledged, four may be sent again and the registry allows one. -/
theorem credit_lost :
    let sent : List Action := [startMessage, .post (0, 0) (.generic "" []), ackMessage 1]
    (windowOfFour.run sent).nfree (1, 7) = 1 ∧ windowOfFour.balance (1, 7) 4 sent = 4 := by
  exact ⟨rfl, rfl⟩

theorem credit_conserved_iff_spent :
    let frame (n : UInt8) : Action := .post (0, 0) (.generic "" [("n", .scalar (.u8 n))])
    windowOfFour.Conserved (1, 7) (min (countAt false [4, 0, 0, 0]) maxPipelineWindow)
        [startMessage, frame 1, frame 2, frame 3, frame 4, ackMessage 3, frame 5] ∧
      ¬ windowOfFour.Conserved (1, 7) (min (countAt false [4, 0, 0, 0]) maxPipelineWindow)
        [startMessage, frame 1, ackMessage 1] := by
  intro frame
  have conserved := @credit_conserved_iff windowOfFour (1, 7) 2 0x88 false [4, 0, 0, 0] none rfl (by decide) (by decide)
  refine ⟨(conserved _).mpr ?_, fun both => ?_⟩
  · simp only [ackedWhenSpent_cons]
    refine ⟨nofun, nofun, nofun, nofun, nofun, fun _ _ => Or.inl rfl, nofun, fun before a after v split => ?_⟩
    simp at split
  · rcases (conserved _).mp both [startMessage, frame 1] (ackMessage 1) [] 1 rfl rfl with spent | full
    · cases spent
    · exact absurd full (by decide)

end PvMonitors

end Spvirit
