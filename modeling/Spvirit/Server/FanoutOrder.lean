import Spvirit.Server.Registry

/-! Fan-outs side by side: each decides under the registry's lock and deposits its frames after it. -/

namespace Spvirit

/-- A frame on its way to a subscriber, with the number of the decision it comes from. -/
structure Deposit where
  ticket : Nat
  key : UInt64 × UInt32
  clock : Int64 × Int32
  payload : NtPayload
  bytes : List UInt8

/-- A call that offers a payload to all subscribers of the variable or to one. -/
inductive FanoutCall where
  | notifyMonitors (clock : Int64 × Int32) (p : NtPayload)
  | sendMonitorUpdateFor (clock : Int64 × Int32) (key : UInt64 × UInt32) (p : NtPayload)

namespace FanoutCall

def clock : FanoutCall → Int64 × Int32
  | .notifyMonitors clock _ | .sendMonitorUpdateFor clock _ _ => clock

def payload : FanoutCall → NtPayload
  | .notifyMonitors _ p | .sendMonitorUpdateFor _ _ p => p

def action : FanoutCall → Action
  | .notifyMonitors clock p => .post clock p
  | .sendMonitorUpdateFor clock key p => .snapshot clock key p

/-- The frames the call has decided to send. -/
def deposits (m : PvMonitors) (ticket : Nat) : FanoutCall → List Deposit
  | .notifyMonitors clock p =>
    (planFanout clock m.subs p).2.map fun f => ⟨ticket, (f.connId, f.ioid), clock, p, f.encode clock p⟩
  | .sendMonitorUpdateFor clock key p =>
    ((Spvirit.sendMonitorUpdateFor clock m.subs key p).2.map fun r => (⟨ticket, key, clock, p, r.1⟩ : Deposit)).toList

end FanoutCall

/-- A task takes the lock and decides, or deposits its next frame. -/
inductive FanoutStep where
  | decide (task : Nat) (call : FanoutCall)
  | deposit (task : Nat)

structure FanoutState where
  monitors : PvMonitors
  calls : Nat
  inFlight : Nat → List Deposit
  /-- All decisions so far, in the order of the lock. -/
  planned : List Deposit
  /-- What the writers have been given, in order. -/
  deposited : List Deposit

namespace FanoutState

def initial (m : PvMonitors) : FanoutState := ⟨m, 0, fun _ => [], [], []⟩

def step (s : FanoutState) : FanoutStep → FanoutState
  | .decide task call =>
    { monitors := s.monitors.step call.action
      calls := s.calls + 1
      inFlight := Function.update s.inFlight task (s.inFlight task ++ call.deposits s.monitors s.calls)
      planned := s.planned ++ call.deposits s.monitors s.calls
      deposited := s.deposited }
  | .deposit task =>
    match s.inFlight task with
    | [] => s
    | f :: rest => { s with inFlight := Function.update s.inFlight task rest, deposited := s.deposited ++ [f] }

def run (s : FanoutState) (schedule : List FanoutStep) : FanoutState := schedule.foldl step s

/-- All calls have returned. -/
def Finished (s : FanoutState) : Prop := ∀ task, s.inFlight task = []

end FanoutState

def lastFor (key : UInt64 × UInt32) (frames : List Deposit) : Option Deposit :=
  (frames.filter fun f => f.key = key).getLast?

section

variable {m : PvMonitors} {key : UInt64 × UInt32} {sub : MonitorSub} {call : FanoutCall} {ticket : Nat} {d : Deposit}

theorem react_call (state : Option MonitorState) :
    sub.react state call.action = if sub.sent call.action then sub.charge call.payload else sub := by
  cases call with
  | notifyMonitors clock p =>
    simp [FanoutCall.action, FanoutCall.payload, MonitorSub.react, MonitorSub.sent, MonitorSub.offered]
  | sendMonitorUpdateFor clock other p =>
    by_cases here : other = sub.key
    · simp [FanoutCall.action, FanoutCall.payload, MonitorSub.react, MonitorSub.sent, MonitorSub.offered, here]
    · simp [FanoutCall.action, MonitorSub.react, MonitorSub.sent, here]

theorem lookup_of_mem {subs : List MonitorSub} (distinct : (subs.map MonitorSub.key).Nodup) (member : sub ∈ subs) :
    lookup subs sub.key = some sub := by
  unfold lookup
  induction subs with
  | nil => cases member
  | cons first rest ih =>
    obtain ⟨apart, distinct⟩ := List.nodup_cons.mp distinct
    rcases List.mem_cons.mp member with rfl | later
    · exact List.find?_cons_of_pos (by simp)
    · have ne : first.key ≠ sub.key := fun same => apart (same ▸ List.mem_map_of_mem later)
      rw [List.find?_cons_of_neg (by simpa using ne)]
      exact ih distinct later

/-- A frame is decided for a subscriber that is owed it, and carries its view of the payload. -/
theorem mem_deposits (member : d ∈ call.deposits m ticket) :
    d.ticket = ticket ∧ d.payload = call.payload ∧ d.clock = call.clock ∧
      ∃ sub, m.sub d.key = some sub ∧ sub.sent call.action = true ∧ d.bytes = monitorFrame d.clock sub d.payload := by
  cases call with
  | notifyMonitors clock p =>
    obtain ⟨f, planned, rfl⟩ := List.mem_map.mp member
    obtain ⟨sub, inList, made⟩ := List.mem_filterMap.mp planned
    have spec := @planFor_spec clock p sub
    split_ifs at spec with sends
    · obtain ⟨f', result, named, _, bytes⟩ := spec
      rw [result] at made
      cases made
      refine ⟨rfl, rfl, rfl, sub, ?_, by simpa [FanoutCall.action, MonitorSub.sent] using sends, bytes⟩
      rw [named]
      exact lookup_of_mem m.distinct inList
    · rw [spec] at made
      cases made
  | sendMonitorUpdateFor clock key p =>
    rw [FanoutCall.deposits, Spvirit.sendMonitorUpdateFor, atFirst_result] at member
    obtain ⟨r, decided, rfl⟩ := Option.map_eq_some_iff.mp (Option.mem_toList.mp member)
    obtain ⟨sub, found, made⟩ := Option.bind_eq_some_iff.mp decided
    rw [sendTo_spec] at made
    split_ifs at made with sends
    cases made
    refine ⟨rfl, rfl, rfl, sub, found, ?_, rfl⟩
    simpa [FanoutCall.action, MonitorSub.sent, PvMonitors.key_of_lookup found] using sends

theorem deposits_complete (found : m.sub key = some sub) (owed : sub.sent call.action = true) :
    ∃ d ∈ call.deposits m ticket, d.key = key := by
  have named := PvMonitors.key_of_lookup found
  cases call with
  | notifyMonitors clock p =>
    have sends : sub.ready ∧ ¬ sub.unchanged clock p := by simpa [FanoutCall.action, MonitorSub.sent] using owed
    have spec := @planFor_spec clock p sub
    rw [if_pos sends] at spec
    obtain ⟨f, planned, naming, _⟩ := spec
    refine ⟨_, List.mem_map_of_mem (List.mem_filterMap.mpr ⟨sub, List.mem_of_find?_eq_some found, ?_⟩), naming.trans named⟩
    rw [planned]
  | sendMonitorUpdateFor clock other p =>
    have sends : other = sub.key ∧ sub.ready ∧ ¬ sub.unchanged clock p := by
      simpa [FanoutCall.action, MonitorSub.sent] using owed
    have same : other = key := sends.1.trans named
    subst same
    refine ⟨⟨ticket, other, clock, p, monitorFrame clock sub p⟩, Option.mem_toList.mpr ?_, rfl⟩
    rw [Spvirit.sendMonitorUpdateFor, atFirst_result, show lookup m.subs other = some sub from found, Option.bind_some,
      sendTo_spec, if_pos sends.2]
    rfl

theorem deposits_unique {d' : Deposit} (member : d ∈ call.deposits m ticket) (member' : d' ∈ call.deposits m ticket)
    (same : d.key = d'.key) : d = d' := by
  obtain ⟨number, payload, clock, sub, found, _, bytes⟩ := mem_deposits member
  obtain ⟨number', payload', clock', sub', found', _, bytes'⟩ := mem_deposits member'
  have one : sub = sub' := Option.some.inj (found.symm.trans (same ▸ found'))
  have frame : d.bytes = d'.bytes := by rw [bytes, bytes', one, clock, clock', payload, payload']
  cases d
  cases d'
  simp_all

end

/-- What holds however the tasks take turns. -/
structure FanoutState.Sound (s : FanoutState) : Prop where
  flying : ∀ task, ∀ f ∈ s.inFlight task, f ∈ s.planned
  landed : ∀ f ∈ s.deposited, f ∈ s.planned
  kept : ∀ f ∈ s.planned, f ∈ s.deposited ∨ ∃ task, f ∈ s.inFlight task
  tickets : ∀ f ∈ s.planned, f.ticket < s.calls
  unique : ∀ f ∈ s.planned, ∀ g ∈ s.planned, f.key = g.key → f.ticket = g.ticket → f = g
  framed : ∀ f ∈ s.planned, ∃ sub, s.monitors.sub f.key = some sub ∧ f.bytes = monitorFrame f.clock sub f.payload
  baseline : ∀ key g, lastFor key s.planned = some g →
    ∃ sub, s.monitors.sub key = some sub ∧ sub.lastSnapshot = some g.payload

section

variable {s : FanoutState} {key : UInt64 × UInt32}

theorem lastFor_mem {frames : List Deposit} {f : Deposit} (last : lastFor key frames = some f) : f ∈ frames ∧ f.key = key := by
  simpa using List.mem_filter.mp (List.mem_of_getLast? last)

theorem lastFor_append {frames more : List Deposit} :
    lastFor key (frames ++ more) = (lastFor key more).or (lastFor key frames) := by
  unfold lastFor
  rw [List.filter_append, List.getLast?_append]

theorem lastFor_isSome {frames : List Deposit} {f : Deposit} (member : f ∈ frames) (named : f.key = key) :
    ∃ g, lastFor key frames = some g := by
  have nonempty : frames.filter (fun f => f.key = key) ≠ [] :=
    List.ne_nil_of_mem (List.mem_filter.mpr ⟨member, by simpa using named⟩)
  exact ⟨_, List.getLast?_eq_some_getLast nonempty⟩

theorem FanoutState.Sound.initial (m : PvMonitors) : (FanoutState.initial m).Sound := by
  refine ⟨?_, ?_, ?_, ?_, ?_, ?_, ?_⟩ <;> simp [FanoutState.initial, lastFor]

theorem FanoutState.Sound.deposit (sound : s.Sound) (task : Nat) : (s.step (.deposit task)).Sound := by
  rw [FanoutState.step]
  cases queue : s.inFlight task with
  | nil => exact sound
  | cons f rest =>
    have queued : ∀ g, g ∈ s.inFlight task ↔ g = f ∨ g ∈ rest := fun g => by rw [queue, List.mem_cons]
    dsimp only
    refine ⟨?_, ?_, ?_, sound.tickets, sound.unique, sound.framed, sound.baseline⟩
    · intro other g member
      change g ∈ Function.update s.inFlight task rest other at member
      by_cases here : other = task
      · subst here
        rw [Function.update_self] at member
        exact sound.flying other g ((queued g).mpr (Or.inr member))
      · rw [Function.update_of_ne here] at member
        exact sound.flying other g member
    · intro g member
      rcases List.mem_append.mp member with before | here
      · exact sound.landed g before
      · exact sound.flying task g ((queued g).mpr (Or.inl (List.mem_singleton.mp here)))
    · intro g member
      rcases sound.kept g member with before | ⟨other, flying⟩
      · exact Or.inl (List.mem_append_left _ before)
      · by_cases here : other = task
        · subst here
          rcases (queued g).mp flying with rfl | later
          · exact Or.inl (List.mem_append_right _ (List.mem_singleton_self _))
          · refine Or.inr ⟨other, ?_⟩
            change g ∈ Function.update s.inFlight other rest other
            rwa [Function.update_self]
        · refine Or.inr ⟨other, ?_⟩
          change g ∈ Function.update s.inFlight task rest other
          rwa [Function.update_of_ne here]

/-- A decision on a subscriber's frames and the baseline it leaves. -/
theorem FanoutState.Sound.decide (sound : s.Sound) (task : Nat) (call : FanoutCall) :
    (s.step (.decide task call)).Sound := by
  have fresh : ∀ f ∈ s.planned, ∀ d ∈ call.deposits s.monitors s.calls, f.ticket ≠ d.ticket := fun f old d new => by
    have before := sound.tickets f old
    have now := (mem_deposits new).1
    omega
  have moved : ∀ key sub, s.monitors.sub key = some sub → (s.monitors.step call.action).sub key
      = some (if sub.sent call.action then sub.charge call.payload else sub) := fun key sub found => by
    rw [PvMonitors.sub_step found, react_call]
  refine ⟨?_, ?_, ?_, ?_, ?_, ?_, ?_⟩
  · intro other f member
    by_cases here : other = task
    · subst here
      change f ∈ Function.update s.inFlight other _ other at member
      rw [Function.update_self] at member
      rcases List.mem_append.mp member with before | new
      · exact List.mem_append_left _ (sound.flying other f before)
      · exact List.mem_append_right _ new
    · change f ∈ Function.update s.inFlight task _ other at member
      rw [Function.update_of_ne here] at member
      exact List.mem_append_left _ (sound.flying other f member)
  · exact fun f member => List.mem_append_left _ (sound.landed f member)
  · intro f member
    rcases List.mem_append.mp member with before | new
    · rcases sound.kept f before with landed | ⟨other, flying⟩
      · exact Or.inl landed
      · refine Or.inr ⟨other, ?_⟩
        change f ∈ Function.update s.inFlight task _ other
        by_cases here : other = task
        · subst here
          rw [Function.update_self]
          exact List.mem_append_left _ flying
        · rw [Function.update_of_ne here]
          exact flying
    · refine Or.inr ⟨task, ?_⟩
      change f ∈ Function.update s.inFlight task _ task
      rw [Function.update_self]
      exact List.mem_append_right _ new
  · intro f member
    rcases List.mem_append.mp member with before | new
    · exact Nat.lt_succ_of_lt (sound.tickets f before)
    · rw [(mem_deposits new).1]
      exact Nat.lt_succ_self _
  · intro f first g second named numbered
    rcases List.mem_append.mp first with old | new <;> rcases List.mem_append.mp second with old' | new'
    · exact sound.unique f old g old' named numbered
    · exact absurd numbered (fresh f old g new')
    · exact absurd numbered.symm (fresh g old' f new)
    · exact deposits_unique new new' named
  · intro f member
    have settled : ∃ sub, s.monitors.sub f.key = some sub ∧ f.bytes = monitorFrame f.clock sub f.payload := by
      rcases List.mem_append.mp member with before | new
      · exact sound.framed f before
      · obtain ⟨_, _, _, sub, found, _, bytes⟩ := mem_deposits new
        exact ⟨sub, found, bytes⟩
    obtain ⟨sub, found, bytes⟩ := settled
    refine ⟨_, moved f.key sub found, ?_⟩
    split_ifs
    · exact bytes
    · exact bytes
  · intro key g last
    change lastFor key (s.planned ++ call.deposits s.monitors s.calls) = some g at last
    rw [lastFor_append] at last
    cases mine : lastFor key (call.deposits s.monitors s.calls) with
    | some d =>
      rw [mine] at last
      cases last
      obtain ⟨member, rfl⟩ := lastFor_mem mine
      obtain ⟨_, payload, _, sub, found, owed, _⟩ := mem_deposits member
      refine ⟨_, moved _ sub found, ?_⟩
      rw [if_pos owed, payload]
      rfl
    | none =>
      rw [mine] at last
      obtain ⟨sub, found, snapshot⟩ := sound.baseline key g last
      have unsent : ¬ sub.sent call.action = true := fun owed => by
        obtain ⟨d, member, named⟩ := @deposits_complete _ _ _ _ s.calls found owed
        obtain ⟨h, last⟩ := lastFor_isSome member named
        rw [mine] at last
        cases last
      refine ⟨_, moved key sub found, ?_⟩
      rw [if_neg unsent]
      exact snapshot

theorem FanoutState.Sound.run (sound : s.Sound) (schedule : List FanoutStep) : (s.run schedule).Sound := by
  induction schedule generalizing s with
  | nil => exact sound
  | cons step schedule ih =>
    cases step with
    | decide task call => exact ih (sound.decide task call)
    | deposit task => exact ih (sound.deposit task)

/-- Once all calls have returned, the last frame deposited for a subscriber is that of
the payload in its baseline, if it comes from the call that took the lock last among
those that decided to send it one. -/
theorem last_deposit_of_lock_order (m : PvMonitors) (schedule : List FanoutStep) (key : UInt64 × UInt32)
    (finished : ((FanoutState.initial m).run schedule).Finished)
    (sent : ∃ f ∈ ((FanoutState.initial m).run schedule).planned, f.key = key)
    (ordered : (lastFor key ((FanoutState.initial m).run schedule).deposited).map Deposit.ticket =
      (lastFor key ((FanoutState.initial m).run schedule).planned).map Deposit.ticket) :
    ∃ sub f p, ((FanoutState.initial m).run schedule).monitors.sub key = some sub ∧
      lastFor key ((FanoutState.initial m).run schedule).deposited = some f ∧
      sub.lastSnapshot = some p ∧ f.bytes = monitorFrame f.clock sub p := by
  have sound := (FanoutState.Sound.initial m).run schedule
  generalize (FanoutState.initial m).run schedule = s at finished sent ordered sound
  obtain ⟨f₀, planned, named⟩ := sent
  obtain ⟨g, lastPlanned⟩ := lastFor_isSome planned named
  have landed : f₀ ∈ s.deposited := by
    rcases sound.kept f₀ planned with landed | ⟨task, flying⟩
    · exact landed
    · rw [finished task] at flying
      cases flying
  obtain ⟨f, lastDeposited⟩ := lastFor_isSome landed named
  obtain ⟨sub, found, snapshot⟩ := sound.baseline key g lastPlanned
  obtain ⟨deposited, fKey⟩ := lastFor_mem lastDeposited
  obtain ⟨decided, gKey⟩ := lastFor_mem lastPlanned
  rw [lastDeposited, lastPlanned] at ordered
  -- one call decides on one frame for a subscriber
  have same := sound.unique f (sound.landed f deposited) g decided (fKey.trans gKey.symm) (Option.some.inj ordered)
  subst same
  obtain ⟨sub', found', bytes⟩ := sound.framed f decided
  have one : sub' = sub := Option.some.inj (found'.symm.trans (fKey ▸ found))
  exact ⟨sub, f, f.payload, found, lastDeposited, snapshot, one ▸ bytes⟩

/-- A running subscriber without a filter. -/
def oneSubscriber : PvMonitors where
  subs := [⟨1, 7, 2, false, true, false, 0, none, none⟩]
  distinct := List.nodup_singleton _
  states _ := none

/-- Two posts: the second decides after the first and deposits before it. -/
def overtaken : List FanoutStep :=
  [.decide 0 (.notifyMonitors (0, 0) (levelOf 1)), .decide 1 (.notifyMonitors (0, 0) (levelOf 2)), .deposit 1, .deposit 0]

/-- The baseline is the second payload, and what the client is given last is the first. -/
theorem overtaken_last :
    let s := (FanoutState.initial oneSubscriber).run overtaken
    ∃ sub f, s.monitors.sub (1, 7) = some sub ∧ lastFor (1, 7) s.deposited = some f ∧
      sub.lastSnapshot = some (levelOf 2) ∧ f.payload = levelOf 1 ∧
      ∀ clock, f.bytes ≠ monitorFrame clock sub (levelOf 2) := by
  intro s
  refine ⟨⟨1, 7, 2, false, true, false, 0, none, some (levelOf 2)⟩,
    ⟨0, (1, 7), (0, 0), levelOf 1, monitorFrame (0, 0) ⟨1, 7, 2, false, true, false, 0, none, none⟩ (levelOf 1)⟩,
    rfl, rfl, rfl, rfl, fun clock same => ?_⟩
  -- the value is the byte behind the bitset
  have value : some (1 : UInt8) = some 2 := congrArg (fun b : List UInt8 => b[15]?) same
  exact absurd value (by decide)

/-- The same two posts, deposited in the order of their decisions. -/
theorem last_deposit_of_lock_order_two :
    let s := (FanoutState.initial oneSubscriber).run (overtaken.take 2 ++ [.deposit 0, .deposit 1])
    ∃ sub f p, s.monitors.sub (1, 7) = some sub ∧ lastFor (1, 7) s.deposited = some f ∧
      sub.lastSnapshot = some p ∧ f.bytes = monitorFrame f.clock sub p := by
  refine last_deposit_of_lock_order oneSubscriber _ (1, 7) (fun task => ?_) ⟨_, List.mem_cons_self .., rfl⟩ rfl
  rcases task with _ | _ | task <;> rfl

end

end Spvirit
