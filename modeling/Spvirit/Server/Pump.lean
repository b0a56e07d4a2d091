import Spvirit.Server.Bindings

/-! The pumps of one process variable, which drain a source's streams. All interleaves at the locks of the registry. -/

namespace Spvirit.ChannelTables

variable {t : ChannelTables} {ioid sid cid : UInt32}

/-- The channel of a monitor, if it is the client's current one. -/
def current (t : ChannelTables) (ioid : UInt32) : Option UInt32 :=
  (t.channelForMonitor ioid).bind fun channel => if t.cidToSid channel.2 = some channel.1 then some channel.1 else none

theorem current_eq_some_iff :
    t.current ioid = some sid ↔ ∃ cid, t.channelForMonitor ioid = some (sid, cid) ∧ t.cidToSid cid = some sid := by
  rw [current, Option.bind_eq_some_iff]
  constructor
  · rintro ⟨⟨sid', cid⟩, found, same⟩
    dsimp only at same
    split_ifs at same with now
    cases same
    exact ⟨cid, found, now⟩
  · rintro ⟨cid, found, now⟩
    exact ⟨(sid, cid), found, if_pos now⟩

theorem channelForMonitor_eq_some_iff :
    t.channelForMonitor ioid = some (sid, cid) ↔ t.ioidToSid ioid = some sid ∧ t.sidToCid sid = some cid := by
  unfold channelForMonitor
  cases t.ioidToSid ioid with
  | none => simp
  | some old =>
    simp only [Option.map_eq_some_iff, Prod.mk.injEq, Option.some.injEq]
    constructor
    · rintro ⟨_, found, rfl, rfl⟩
      exact ⟨rfl, found⟩
    · rintro ⟨rfl, found⟩
      exact ⟨cid, found, rfl, rfl⟩

/-- A channel is removed for its own monitors only, if the client's id is its own or not. -/
theorem current_removeChannelIfCurrent (bound : t.Bound) (held : t.sidToCid sid = some cid) (ioid other : UInt32) :
    (t.removeChannelIfCurrent cid sid).1.current ioid = some other ↔ t.current ioid = some other ∧ other ≠ sid := by
  have row := bound ioid sid
  have holder := held
  simp only [current_eq_some_iff, channelForMonitor_eq_some_iff]
  unfold removeChannelIfCurrent removeChannel
  split_ifs <;> simp only [Function.update_apply] <;> grind

end Spvirit.ChannelTables

namespace Spvirit.Pumps

/-- A subscription, with the channel it was opened on. -/
structure Sub where
  conn : UInt64
  ioid : UInt32
  sid : UInt32
  deriving DecidableEq, Repr

/-- How far the opening of a monitor has come. -/
inductive InitPhase where
  | pushed (sub : Sub)
  | subscribed (sub : Sub) (stream : Nat)
  | done

/-- Where a pump's task is. On its way out it holds the subscriptions it has taken and
has still to destroy. -/
inductive PumpPhase where
  | running (stream : Nat)
  | leaving (doomed : List Sub)
  | gone

structure PumpHandle where
  id : Nat
  exiting : Bool
  deriving DecidableEq, Repr

structure State where
  subs : List Sub
  handle : Option PumpHandle
  tasks : Nat → Option PumpPhase
  /-- The number of the next pump, from one 64-bit sequence for all process variables. -/
  next : Nat
  /-- The pumps told to shut down. -/
  signalled : Nat → Bool
  ended : Nat → Bool
  inits : Nat → Option InitPhase
  /-- Calls of `retirePumpIfIdle` that are still to be made. -/
  idleChecks : Nat
  tables : UInt64 → Option ChannelTables
  /-- The channels whose clients have been sent DESTROY_CHANNEL. -/
  destroyed : List (UInt64 × UInt32)

inductive Step where
  | connect (conn : UInt64)
  | client (conn : UInt64) (op : TableOp)
  /-- The opening of a monitor, by its number: the subscription is pushed, the source
  returns a stream, the stream is handed to a pump. -/
  | push (k : Nat) (sub : Sub)
  | subscribe (k stream : Nat)
  | ensurePump (k : Nat)
  /-- A pump of another process variable takes the next number. -/
  | ensurePumpElsewhere
  | streamEnds (stream : Nat)
  /-- A pump sees the end of its stream. -/
  | beginPumpTeardown (id : Nat)
  /-- A pump destroys the next subscription it has taken. -/
  | destroy (id : Nat)
  /-- A pump sees that it is to shut down. -/
  | shutdown (id : Nat)
  | retirePumpGeneration (id : Nat)
  | removeMonitorSubscription (conn : UInt64) (ioid : UInt32)
  | cleanupConnection (conn : UInt64)
  | retirePumpIfIdle

namespace State

def initial : State :=
  ⟨[], none, fun _ => none, 0, fun _ => false, fun _ => false, fun _ => none, 0, fun _ => none, []⟩

variable (s : State)

def setTask (id : Nat) (phase : PumpPhase) : State := { s with tasks := Function.update s.tasks id (some phase) }

def setInit (k : Nat) (phase : InitPhase) : State := { s with inits := Function.update s.inits k (some phase) }

/-- A pump that is not on its way out stays, and the new stream is dropped. -/
def ensurePump (stream : Nat) : State :=
  match s.handle with
  | some ⟨_, false⟩ => s
  | _ => { s with handle := some ⟨s.next, false⟩, next := (s.next + 1) % 2 ^ 64 }.setTask s.next (.running stream)

/-- The pump flags its handle and takes the subscribers, unless the handle is another's. -/
def beginPumpTeardown (id : Nat) : State :=
  match s.handle with
  | some h =>
    if h.id ≠ id then s.setTask id (.leaving [])
    else { s with handle := some ⟨id, true⟩, subs := [] }.setTask id (.leaving s.subs)
  | none => s.setTask id (.leaving [])

/-- The channel destroyed for a subscription: the one its id is bound to, if that is
still the client's current one. -/
def channelOf (sub : Sub) : Option (UInt32 × UInt32) :=
  match s.tables sub.conn with
  | none => none
  | some t => t.channelForMonitor sub.ioid

/-- The DESTROY_CHANNEL a subscription's client is sent. -/
def sends (sub : Sub) : Option (UInt64 × UInt32) :=
  match s.tables sub.conn, s.channelOf sub with
  | some t, some (sid, cid) => if (t.removeChannelIfCurrent cid sid).2 then some (sub.conn, sid) else none
  | _, _ => none

def destroy (id : Nat) (sub : Sub) (rest : List Sub) : State :=
  let tables :=
    match s.tables sub.conn, s.channelOf sub with
    | some t, some (sid, cid) => Function.update s.tables sub.conn (some (t.removeChannelIfCurrent cid sid).1)
    | _, _ => s.tables
  { s with tables, destroyed := s.destroyed ++ (s.sends sub).toList }.setTask id (.leaving rest)

def retirePumpGeneration (id : Nat) : State :=
  match s.handle with
  | some h => if h.id = id then { s with handle := none }.setTask id .gone else s.setTask id .gone
  | none => s.setTask id .gone

/-- The check that no subscriber is left and the removal of the pump are one step. -/
def retirePumpIfIdle : State :=
  match s.subs, s.handle with
  | [], some h => { s with handle := none, signalled := Function.update s.signalled h.id true }
  | _, _ => s

def step (s : State) : Step → State
  | .connect conn => { s with tables := Function.update s.tables conn (some .empty) }
  | .client conn op => { s with tables := Function.update s.tables conn ((s.tables conn).map fun t => op.apply t) }
  | .push k sub =>
    match s.inits k with
    | none => { s with subs := s.subs ++ [sub] }.setInit k (.pushed sub)
    | some _ => s
  | .subscribe k stream =>
    match s.inits k with
    | some (.pushed sub) => s.setInit k (.subscribed sub stream)
    | _ => s
  | .ensurePump k =>
    match s.inits k with
    | some (.subscribed _ stream) => (s.ensurePump stream).setInit k .done
    | _ => s
  | .ensurePumpElsewhere => { s with next := (s.next + 1) % 2 ^ 64 }
  | .streamEnds stream => { s with ended := Function.update s.ended stream true }
  | .beginPumpTeardown id =>
    match s.tasks id with
    | some (.running stream) => if s.ended stream then s.beginPumpTeardown id else s
    | _ => s
  | .destroy id =>
    match s.tasks id with
    | some (.leaving (sub :: rest)) => s.destroy id sub rest
    | _ => s
  | .shutdown id =>
    match s.tasks id with
    | some (.running _) => if s.signalled id then s.setTask id (.leaving []) else s
    | _ => s
  | .retirePumpGeneration id =>
    match s.tasks id with
    | some (.leaving []) => s.retirePumpGeneration id
    | _ => s
  | .removeMonitorSubscription conn ioid =>
    { s with subs := s.subs.filter fun sub => ¬ (sub.conn = conn ∧ sub.ioid = ioid), idleChecks := s.idleChecks + 1 }
  | .cleanupConnection conn =>
    { s with
      subs := s.subs.filter fun sub => ¬ sub.conn = conn
      tables := Function.update s.tables conn none
      idleChecks := s.idleChecks + if s.subs.any (·.conn = conn) then 1 else 0 }
  | .retirePumpIfIdle =>
    if s.idleChecks = 0 then s else { s.retirePumpIfIdle with idleChecks := s.idleChecks - 1 }

def run (s : State) (schedule : List Step) : State := schedule.foldl step s

/-- A step takes at most one number. -/
theorem step_next (s : State) (move : Step) : (s.step move).next ≤ s.next + 1 := by
  have wraps := Nat.mod_le (s.next + 1) (2 ^ 64)
  cases move <;>
    simp only [State.step, State.ensurePump, State.beginPumpTeardown, State.destroy, State.retirePumpGeneration,
      State.retirePumpIfIdle, State.setTask, State.setInit] <;>
    (repeat' split) <;> first | exact Nat.le_succ _ | exact wraps

/-- All has been done that was begun, and no pump has an ended stream or a signal before it. -/
structure Finished : Prop where
  inits : ∀ k, s.inits k = none ∨ s.inits k = some .done
  checks : s.idleChecks = 0
  tasks : ∀ id phase, s.tasks id = some phase →
    phase = .gone ∨ ∃ stream, phase = .running stream ∧ s.ended stream = false ∧ s.signalled id = false

/-- A registered pump that is not on its way out drains a stream that has not ended. -/
def Live : Prop :=
  ∃ id stream, s.handle = some ⟨id, false⟩ ∧ s.tasks id = some (.running stream) ∧ s.ended stream = false

end State

/-- What ties the subscriptions to the pumps at every release of a lock. -/
structure State.Tied (s : State) : Prop where
  /-- A handle that is not flagged is of a pump that has not seen its end. -/
  running : ∀ id, s.handle = some ⟨id, false⟩ → ∃ stream, s.tasks id = some (.running stream)
  /-- A subscription without such a pump is one that is being opened. -/
  served : ∀ sub ∈ s.subs, (∃ id, s.handle = some ⟨id, false⟩) ∨
    ∃ k, s.inits k = some (.pushed sub) ∨ ∃ stream, s.inits k = some (.subscribed sub stream)
  fresh : ∀ id phase, s.tasks id = some phase → id < s.next
  known : ∀ h, s.handle = some h → h.id < s.next
  /-- A pump told to shut down is no longer registered. -/
  signals : ∀ id, s.signalled id = true → id < s.next ∧ ∀ h, s.handle = some h → h.id ≠ id

variable {s : State}

namespace State.Tied

theorem initial : State.initial.Tied := by
  refine ⟨?_, ?_, ?_, ?_, ?_⟩ <;> simp [State.initial]

section

variable (tied : s.Tied)

include tied

theorem setTask {id : Nat} {phase : PumpPhase} (old : id < s.next)
    (other : s.handle ≠ some ⟨id, false⟩) : (s.setTask id phase).Tied := by
  refine { tied with running := fun j live => ?_, fresh := fun j moved found => ?_ }
  · have apart : j ≠ id := fun same => other (same ▸ live)
    obtain ⟨stream, running⟩ := tied.running j live
    exact ⟨stream, (Function.update_of_ne apart _ _).trans running⟩
  · change Function.update s.tasks id (some phase) j = some moved at found
    rw [Function.update_apply] at found
    split_ifs at found with here
    · exact here ▸ old
    · exact tied.fresh j moved found

theorem ensurePump (room : s.next + 1 < 2 ^ 64) (stream k : Nat) : ((s.ensurePump stream).setInit k .done).Tied := by
  unfold State.ensurePump
  rw [Nat.mod_eq_of_lt room]
  split
  · rename_i id live
    exact { tied with served := fun sub _ => Or.inl ⟨id, live⟩ }
  · refine ⟨fun j live => ?_, fun sub _ => Or.inl ⟨s.next, rfl⟩, fun j phase found => ?_, fun h live => ?_,
      fun j told => ?_⟩
    · cases live
      exact ⟨stream, Function.update_self _ _ _⟩
    · change Function.update s.tasks s.next _ j = some phase at found
      change j < s.next + 1
      rw [Function.update_apply] at found
      split_ifs at found with here
      · omega
      · have := tied.fresh j phase found
        omega
    · cases live
      exact Nat.lt_succ_self _
    · have before := (tied.signals j told).1
      refine ⟨Nat.lt_succ_of_lt before, fun h live => ?_⟩
      cases live
      exact Nat.ne_of_gt before

theorem beginPumpTeardown {id : Nat} (old : id < s.next) : (s.beginPumpTeardown id).Tied := by
  unfold State.beginPumpTeardown
  cases registered : s.handle with
  | none => exact tied.setTask old (by simp [registered])
  | some h =>
    dsimp only
    split_ifs with own
    · refine tied.setTask old fun same => own ?_
      rw [registered] at same
      cases same
      rfl
    · have flagged : ({ s with handle := some ⟨id, true⟩, subs := [] } : State).Tied := by
        refine ⟨fun j live => ?_, fun sub member => ?_, tied.fresh, fun h' live => ?_, fun j told => ?_⟩
        · cases live
        · cases member
        · cases live
          exact old
        · refine ⟨(tied.signals j told).1, fun h' live => ?_⟩
          cases live
          exact not_not.mp own ▸ (tied.signals j told).2 h registered
      exact flagged.setTask old (by simp)

theorem out {id : Nat} {phase : PumpPhase} (task : s.tasks id = some phase)
    (out : ∀ stream, phase ≠ .running stream) : s.handle ≠ some ⟨id, false⟩ := by
  intro live
  obtain ⟨stream, running⟩ := tied.running id live
  rw [task] at running
  exact out stream (Option.some.inj running)

theorem retirePumpGeneration {id : Nat} {phase : PumpPhase} (task : s.tasks id = some phase)
    (out : ∀ stream, phase ≠ .running stream) : (s.retirePumpGeneration id).Tied := by
  have old := tied.fresh id phase task
  have other := tied.out task out
  unfold State.retirePumpGeneration
  cases registered : s.handle with
  | none => exact tied.setTask old other
  | some h =>
    dsimp only
    split_ifs with own
    · have removed : ({ s with handle := none } : State).Tied := by
        refine ⟨fun j live => ?_, fun sub member => ?_, tied.fresh, fun h' live => ?_, fun j told => ?_⟩
        · cases live
        · right
          rcases tied.served sub member with ⟨j, live⟩ | opening
          · -- the handle is the pump's own, and flagged
            rw [registered] at live
            cases live
            exact absurd (own ▸ registered) other
          · exact opening
        · cases live
        · exact ⟨(tied.signals j told).1, fun h' live => by cases live⟩
      exact removed.setTask old (by simp)
    · exact tied.setTask old other

theorem retirePumpIfIdle : s.retirePumpIfIdle.Tied := by
  unfold State.retirePumpIfIdle
  split
  · rename_i h empty registered
    refine ⟨fun j live => ?_, fun sub member => ?_, tied.fresh, fun h' live => ?_, fun j told => ?_⟩
    · cases live
    · change sub ∈ s.subs at member
      rw [empty] at member
      cases member
    · cases live
    · refine ⟨?_, fun h' live => by cases live⟩
      change Function.update s.signalled h.id true j = true at told
      rw [Function.update_apply] at told
      split_ifs at told with here
      · exact here ▸ tied.known h registered
      · exact (tied.signals j told).1
  · exact tied

theorem filter (keep : Sub → Bool) (tables : UInt64 → Option ChannelTables) (checks : Nat) :
    ({ s with subs := s.subs.filter keep, tables := tables, idleChecks := checks } : State).Tied :=
  { tied with served := fun sub member => tied.served sub (List.mem_of_mem_filter member) }

theorem setInit {k : Nat} {sub : Sub} {phase : InitPhase} {subs : List Sub}
    (more : ∀ other ∈ subs, other ∈ s.subs ∨ other = sub) (idle : ∀ other, s.inits k = some (.pushed other) → other = sub)
    (early : ∀ other stream, s.inits k ≠ some (.subscribed other stream))
    (opening : phase = .pushed sub ∨ ∃ stream, phase = .subscribed sub stream) :
    (({ s with subs := subs } : State).setInit k phase).Tied := by
  have mine : ∃ j, Function.update s.inits k (some phase) j = some (.pushed sub) ∨
      ∃ stream, Function.update s.inits k (some phase) j = some (.subscribed sub stream) := by
    refine ⟨k, ?_⟩
    rw [Function.update_self]
    rcases opening with rfl | ⟨stream, rfl⟩
    · exact Or.inl rfl
    · exact Or.inr ⟨stream, rfl⟩
  refine { tied with served := fun other member => ?_ }
  rcases more other member with before | rfl
  · rcases tied.served other before with live | ⟨j, phases⟩
    · exact Or.inl live
    · right
      by_cases here : j = k
      · subst here
        rcases phases with pushed | ⟨stream, subscribed⟩
        · exact idle other pushed ▸ mine
        · exact absurd subscribed (early other stream)
      · refine ⟨j, ?_⟩
        change Function.update s.inits k (some phase) j = _ ∨ ∃ stream, Function.update s.inits k (some phase) j = _
        rw [Function.update_of_ne here]
        exact phases
  · exact Or.inr mine

theorem step (room : s.next + 1 < 2 ^ 64) (move : Step) : (s.step move).Tied := by
  cases move with
  | connect _ | client _ _ => exact { tied with }
  | streamEnds stream => exact { tied with }
  | push k sub =>
    rw [State.step]
    cases opened : s.inits k with
    | some phase => exact tied
    | none =>
      refine tied.setInit (fun other member => ?_) ?_ ?_ (Or.inl rfl)
      · rcases List.mem_append.mp member with before | here
        · exact Or.inl before
        · exact Or.inr (List.mem_singleton.mp here)
      · simp [opened]
      · simp [opened]
  | subscribe k stream =>
    rw [State.step]
    split
    · rename_i sub opened
      exact tied.setInit (fun other => Or.inl) (by simp [opened]) (by simp [opened]) (Or.inr ⟨stream, rfl⟩)
    · exact tied
  | ensurePump k =>
    rw [State.step]
    split
    · exact tied.ensurePump room _ k
    · exact tied
  | ensurePumpElsewhere =>
    rw [State.step, Nat.mod_eq_of_lt room]
    refine { tied with fresh := fun id phase found => ?_, known := fun h live => ?_, signals := fun id told => ?_ }
    · exact Nat.lt_succ_of_lt (tied.fresh id phase found)
    · exact Nat.lt_succ_of_lt (tied.known h live)
    · exact ⟨Nat.lt_succ_of_lt (tied.signals id told).1, (tied.signals id told).2⟩
  | beginPumpTeardown id =>
    rw [State.step]
    split
    · rename_i running
      split_ifs
      · exact tied.beginPumpTeardown (tied.fresh id _ running)
      · exact tied
    · exact tied
  | destroy id =>
    rw [State.step]
    split
    · rename_i sub rest leaving
      have moved : ∀ tables destroyed, ({ s with tables := tables, destroyed := destroyed } : State).Tied :=
        fun _ _ => { tied with }
      exact (moved _ _).setTask (tied.fresh id _ leaving) (tied.out leaving (by simp))
    · exact tied
  | shutdown id =>
    rw [State.step]
    split
    · rename_i running
      split_ifs with told
      · refine tied.setTask (tied.fresh id _ running) fun live => ?_
        exact (tied.signals id told).2 _ live rfl
      · exact tied
    · exact tied
  | retirePumpGeneration id =>
    rw [State.step]
    split
    · rename_i leaving
      exact tied.retirePumpGeneration leaving (by simp)
    · exact tied
  | removeMonitorSubscription _ _ | cleanupConnection _ => exact tied.filter _ _ _
  | retirePumpIfIdle =>
    rw [State.step]
    split_ifs
    · exact tied
    · exact { tied.retirePumpIfIdle with }

theorem run (schedule : List Step) (room : s.next + schedule.length < 2 ^ 64) : (s.run schedule).Tied := by
  induction schedule generalizing s with
  | nil => exact tied
  | cons move schedule ih =>
    rw [List.length_cons] at room
    have grown := s.step_next move
    exact ih (tied.step (by omega) move) (by omega)

theorem live (finished : s.Finished) {sub : Sub} (member : sub ∈ s.subs) : s.Live := by
  rcases tied.served sub member with ⟨id, registered⟩ | ⟨k, opening⟩
  · obtain ⟨stream, running⟩ := tied.running id registered
    rcases finished.tasks id _ running with gone | ⟨other, same, flowing, _⟩
    · cases gone
    · cases same
      exact ⟨id, stream, registered, running, flowing⟩
  · rcases finished.inits k with none | done
    · simp [none] at opening
    · simp [done] at opening

end

end State.Tied

/-- The pump leaves another's handle as it is. -/
def State.KeepsSuccessor (s : State) (move : Step) : Prop :=
  ∀ id h, move = .beginPumpTeardown id ∨ move = .retirePumpGeneration id → s.handle = some h → h.id ≠ id →
    (s.step move).handle = some h

/-- The subscriptions a pump has taken and has still to destroy. -/
def State.doomed (s : State) (id : Nat) : List Sub :=
  match s.tasks id with
  | some (.leaving doomed) => doomed
  | _ => []

/-- When the turn of a subscription comes whose connection is there, its client has
been or is sent DESTROY_CHANNEL for its channel. -/
def State.Tells (s : State) (id : Nat) : Prop :=
  ∀ sub rest, s.tasks id = some (.leaving (sub :: rest)) → (s.tables sub.conn).isSome →
    (sub.conn, sub.sid) ∈ s.destroyed ++ (s.sends sub).toList

/-- No subscription outside the pump's list is on the channel destroyed: none that is
registered, and none that another pump has taken meanwhile. -/
def State.Spares (s : State) (id : Nat) : Prop :=
  ∀ sub rest, s.tasks id = some (.leaving (sub :: rest)) →
    ∀ later, (later ∈ s.subs ∨ ∃ other, other ≠ id ∧ later ∈ s.doomed other) → s.sends sub ≠ some (later.conn, later.sid)

/-- What is asked of a step. A pump takes subscriptions that stand on their own current
channels, and until they are destroyed the client neither moves their channels nor
opens a further monitor on one. Ids of connections are not used again meanwhile. -/
def State.Allows (s : State) : Step → Prop
  | .connect conn => ∀ id, ∀ sub ∈ s.doomed id, sub.conn ≠ conn
  | .client conn op => ∀ id, ∀ sub ∈ s.doomed id, sub.conn = conn →
    ∀ t, s.tables conn = some t → (op.apply t).current sub.ioid = t.current sub.ioid
  | .push _ later => ∀ id, ∀ sub ∈ s.doomed id, ¬ (sub.conn = later.conn ∧ sub.sid = later.sid)
  | .beginPumpTeardown _ => ∀ sub ∈ s.subs, ∀ t, s.tables sub.conn = some t → t.current sub.ioid = some sub.sid
  | _ => True

def State.Orderly (s : State) : List Step → Prop
  | [] => True
  | move :: schedule => s.Allows move ∧ (s.step move).Orderly schedule

theorem keepsSuccessor (s : State) (move : Step) : s.KeepsSuccessor move := by
  rintro id h (rfl | rfl) registered other
  · rw [State.step]
    split
    · split_ifs
      · rw [State.beginPumpTeardown, registered]
        dsimp only
        rw [if_pos other]
        exact registered
      · exact registered
    · exact registered
  · rw [State.step]
    split
    · rw [State.retirePumpGeneration, registered]
      dsimp only
      rw [if_neg other]
      exact registered
    · exact registered

theorem mem_doomed {id : Nat} {sub : Sub} :
    sub ∈ s.doomed id ↔ ∃ doomed, s.tasks id = some (.leaving doomed) ∧ sub ∈ doomed := by
  unfold State.doomed
  split
  · rename_i doomed leaving
    simp [leaving]
  · rename_i other
    constructor
    · intro member
      cases member
    · rintro ⟨doomed, leaving, _⟩
      exact absurd leaving (other doomed)

theorem doomed_setTask {id j : Nat} {phase : PumpPhase} {sub : Sub} (member : sub ∈ (s.setTask id phase).doomed j) :
    (j = id ∧ ∃ doomed, phase = .leaving doomed ∧ sub ∈ doomed) ∨ j ≠ id ∧ sub ∈ s.doomed j := by
  obtain ⟨doomed, leaving, inside⟩ := mem_doomed.mp member
  change Function.update s.tasks id (some phase) j = some (.leaving doomed) at leaving
  rw [Function.update_apply] at leaving
  split_ifs at leaving with here
  · exact Or.inl ⟨here, doomed, Option.some.inj leaving, inside⟩
  · exact Or.inr ⟨here, mem_doomed.mpr ⟨doomed, leaving, inside⟩⟩

theorem sends_iff {sub : Sub} {conn : UInt64} {sid : UInt32} :
    s.sends sub = some (conn, sid) ↔
      conn = sub.conn ∧ ∃ t, s.tables sub.conn = some t ∧ t.current sub.ioid = some sid := by
  unfold State.sends State.channelOf
  cases here : s.tables sub.conn with
  | none => simp
  | some t =>
    simp only [ChannelTables.current_eq_some_iff, Option.some.injEq, exists_eq_left']
    cases found : t.channelForMonitor sub.ioid with
    | none => simp
    | some channel =>
      obtain ⟨sid', cid⟩ := channel
      have sent : (t.removeChannelIfCurrent cid sid').2 = true ↔ t.cidToSid cid = some sid' := by
        unfold ChannelTables.removeChannelIfCurrent
        split_ifs with current <;> simp [current]
      simp only [sent]
      grind

/-- What holds of the subscriptions being destroyed in an orderly run. -/
structure State.Guarded (s : State) : Prop where
  bound : ∀ conn t, s.tables conn = some t → t.Bound
  /-- Each stands on its own current channel, unless that has been destroyed. -/
  resolved : ∀ id, ∀ sub ∈ s.doomed id, ∀ t, s.tables sub.conn = some t →
    t.current sub.ioid = some sub.sid ∨ t.current sub.ioid = none ∧ (sub.conn, sub.sid) ∈ s.destroyed
  /-- Its channel is of no subscription outside its pump's list. -/
  apart : ∀ id, ∀ sub ∈ s.doomed id, ∀ later, (later ∈ s.subs ∨ ∃ other, other ≠ id ∧ later ∈ s.doomed other) →
    ¬ (sub.conn = later.conn ∧ sub.sid = later.sid)

namespace State.Guarded

theorem initial : State.initial.Guarded := by
  refine ⟨?_, ?_, ?_⟩ <;> simp [State.initial, State.doomed]

section

variable (guarded : s.Guarded)

include guarded

theorem tells {id : Nat} : s.Tells id := by
  intro sub rest leaving connected
  obtain ⟨t, here⟩ := Option.isSome_iff_exists.mp connected
  rcases guarded.resolved id sub (mem_doomed.mpr ⟨_, leaving, List.mem_cons_self⟩) t here with own | ⟨_, before⟩
  · exact List.mem_append_right _ (Option.mem_toList.mpr (sends_iff.mpr ⟨rfl, t, here, own⟩))
  · exact List.mem_append_left _ before

theorem spares {id : Nat} : s.Spares id := by
  intro sub rest leaving later outside sent
  have member := mem_doomed.mpr ⟨_, leaving, List.mem_cons_self⟩
  obtain ⟨same, t, here, current⟩ := sends_iff.mp sent
  refine guarded.apart id sub member later outside ⟨same.symm, ?_⟩
  rcases guarded.resolved id sub member t here with own | ⟨unbound, _⟩
  · exact Option.some.inj (own.symm.trans current)
  · rw [unbound] at current
    cases current

/-- Nothing is asked of what goes away. -/
theorem shrink {s' : State} (subs : ∀ sub ∈ s'.subs, sub ∈ s.subs) (doomed : ∀ id, ∀ sub ∈ s'.doomed id, sub ∈ s.doomed id)
    (tables : ∀ conn t, s'.tables conn = some t → s.tables conn = some t) (destroyed : s'.destroyed = s.destroyed) :
    s'.Guarded where
  bound conn t here := guarded.bound conn t (tables conn t here)
  resolved id sub member t here := by
    rw [destroyed]
    exact guarded.resolved id sub (doomed id sub member) t (tables _ t here)
  apart id sub member later outside :=
    guarded.apart id sub (doomed id sub member) later (outside.imp (subs later) fun ⟨other, apart, held⟩ =>
      ⟨other, apart, doomed other later held⟩)

theorem setTask {id : Nat} {phase : PumpPhase}
    (fewer : ∀ doomed, phase = .leaving doomed → ∀ sub ∈ doomed, sub ∈ s.doomed id) : (s.setTask id phase).Guarded := by
  refine guarded.shrink (fun _ member => member) (fun j sub member => ?_) (fun _ _ here => here) rfl
  rcases doomed_setTask member with ⟨rfl, doomed, same, inside⟩ | ⟨_, before⟩
  · exact fewer doomed same sub inside
  · exact before

theorem push {k : Nat} {sub : Sub} (allowed : s.Allows (.push k sub)) :
    ({ s with subs := s.subs ++ [sub] } : State).Guarded := by
  refine { guarded with apart := fun id other member later outside => ?_ }
  rcases outside with registered | held
  · rcases List.mem_append.mp registered with before | here
    · exact guarded.apart id other member later (Or.inl before)
    · rw [List.mem_singleton.mp here]
      exact allowed id other member
  · exact guarded.apart id other member later (Or.inr held)

theorem client {conn : UInt64} {op : TableOp} (allowed : s.Allows (.client conn op)) : (s.step (.client conn op)).Guarded := by
  have moved : ∀ c t', (s.step (.client conn op)).tables c = some t' →
      ∃ t, s.tables c = some t ∧ (t' = t ∧ c ≠ conn ∨ t' = op.apply t ∧ c = conn) := by
    intro c t' here
    change Function.update s.tables conn _ c = some t' at here
    rw [Function.update_apply] at here
    split_ifs at here with same
    · obtain ⟨t, found, rfl⟩ := Option.map_eq_some_iff.mp here
      exact ⟨t, same ▸ found, Or.inr ⟨rfl, same⟩⟩
    · exact ⟨t', here, Or.inl ⟨rfl, same⟩⟩
  refine { guarded with bound := fun c t' here => ?_, resolved := fun id sub member t' here => ?_ }
  · obtain ⟨t, found, ⟨rfl, _⟩ | ⟨rfl, _⟩⟩ := moved c t' here
    · exact guarded.bound c _ found
    · exact (guarded.bound c t found).apply op
  · obtain ⟨t, found, ⟨rfl, _⟩ | ⟨rfl, same⟩⟩ := moved sub.conn t' here
    · exact guarded.resolved id sub member _ found
    · rw [allowed id sub member same t (same ▸ found)]
      exact guarded.resolved id sub member t found

theorem connect {conn : UInt64} (allowed : s.Allows (.connect conn)) : (s.step (.connect conn)).Guarded := by
  refine { guarded with bound := fun c t here => ?_, resolved := fun id sub member t here => ?_ }
  · change Function.update s.tables conn _ c = some t at here
    rw [Function.update_apply] at here
    split_ifs at here with same
    · cases here
      exact fun ioid sid => by simp [ChannelTables.empty]
    · exact guarded.bound c t here
  · refine guarded.resolved id sub member t ?_
    exact (Function.update_of_ne (allowed id sub member) _ _).symm.trans here

/-- The subscriptions taken were registered, so no other pump's list has their channels. -/
theorem take {id : Nat} {handle : Option PumpHandle} (idle : s.doomed id = [])
    (allowed : s.Allows (.beginPumpTeardown id)) :
    (({ s with handle := handle, subs := [] } : State).setTask id (.leaving s.subs)).Guarded where
  bound := guarded.bound
  resolved j sub member t here := by
    rcases doomed_setTask member with ⟨_, doomed, same, inside⟩ | ⟨_, before⟩
    · cases same
      exact Or.inl (allowed sub inside t here)
    · exact guarded.resolved j sub before t here
  apart j sub member later outside := by
    rcases outside with registered | ⟨other, apart, held⟩
    · cases registered
    · rcases doomed_setTask member with ⟨rfl, doomed, same, inside⟩ | ⟨off, before⟩
      · cases same
        rcases doomed_setTask held with ⟨rfl, _⟩ | ⟨_, older⟩
        · exact absurd rfl apart
        · exact fun ⟨conn, sid⟩ => guarded.apart other later older sub (Or.inl inside) ⟨conn.symm, sid.symm⟩
      · rcases doomed_setTask held with ⟨_, doomed, same, inside⟩ | ⟨_, older⟩
        · cases same
          exact guarded.apart j sub before later (Or.inl inside)
        · exact guarded.apart j sub before later (Or.inr ⟨other, apart, older⟩)

/-- What becomes of the tables: one channel goes. If it was current, its client is told. -/
theorem destroy_tables (id : Nat) (sub : Sub) (rest : List Sub) {conn : UInt64} {t' : ChannelTables}
    (here : (s.destroy id sub rest).tables conn = some t') :
    ∃ t, s.tables conn = some t ∧ t'.Bound ∧ ∀ ioid, t'.current ioid = t.current ioid ∨
      t'.current ioid = none ∧ ∃ sid, t.current ioid = some sid ∧ s.sends sub = some (conn, sid) := by
  by_cases unmoved : s.tables conn = some t'
  · exact ⟨t', unmoved, guarded.bound conn t' unmoved, fun _ => Or.inl rfl⟩
  simp only [State.destroy, State.setTask, State.channelOf] at here
  cases found : s.tables sub.conn with
  | none => exact absurd (by simpa only [found] using here) unmoved
  | some t =>
    cases channel : t.channelForMonitor sub.ioid with
    | none => exact absurd (by simpa only [found, channel] using here) unmoved
    | some pair =>
      obtain ⟨sid, cid⟩ := pair
      simp only [found, channel, Function.update_apply] at here
      split_ifs at here with same
      · cases here
        subst same
        have bound := guarded.bound _ t found
        have held := (ChannelTables.channelForMonitor_eq_some_iff.mp channel).2
        have removed := ChannelTables.current_removeChannelIfCurrent bound held
        refine ⟨t, found, bound.apply (.removeChannelIfCurrent cid sid), fun ioid => ?_⟩
        by_cases own : t.current ioid = some sid
        · refine Or.inr ⟨Option.eq_none_iff_forall_ne_some.mpr fun other still => ?_, sid, own, ?_⟩
          · obtain ⟨was, apart⟩ := (removed ioid other).mp still
            exact apart (Option.some.inj (was.symm.trans own))
          · -- a current channel is current for each of its monitors
            obtain ⟨cid', other, current⟩ := ChannelTables.current_eq_some_iff.mp own
            have again := (ChannelTables.channelForMonitor_eq_some_iff.mp other).2
            cases Option.some.inj (held.symm.trans again)
            exact sends_iff.mpr ⟨rfl, t, found, ChannelTables.current_eq_some_iff.mpr ⟨cid, channel, current⟩⟩
        · refine Or.inl (Option.ext fun other => (removed ioid other).trans (and_iff_left_of_imp fun was apart => ?_))
          exact own (apart ▸ was)
      · exact absurd here unmoved

theorem destroy {id : Nat} {sub : Sub} {rest : List Sub} (leaving : s.tasks id = some (.leaving (sub :: rest))) :
    (s.destroy id sub rest).Guarded := by
  have fewer : ∀ j, ∀ other ∈ (s.destroy id sub rest).doomed j, other ∈ s.doomed j := by
    intro j other member
    rcases doomed_setTask member with ⟨rfl, doomed, same, inside⟩ | ⟨_, before⟩
    · cases same
      exact mem_doomed.mpr ⟨_, leaving, List.mem_cons_of_mem _ inside⟩
    · exact before
  refine ⟨fun conn t' here => ?_, fun j other member t' here => ?_, fun j other member later outside => ?_⟩
  · obtain ⟨t, _, bound, _⟩ := guarded.destroy_tables id sub rest here
    exact bound
  · obtain ⟨t, found, _, either⟩ := guarded.destroy_tables id sub rest here
    have before := guarded.resolved j other (fewer j other member) t found
    change _ ∨ _ ∧ _ ∈ s.destroyed ++ (s.sends sub).toList
    rcases either other.ioid with same | ⟨gone, sid, was, sent⟩
    · rw [same]
      exact before.imp_right fun ⟨unbound, told⟩ => ⟨unbound, List.mem_append_left _ told⟩
    · refine Or.inr ⟨gone, ?_⟩
      rcases before with own | ⟨unbound, _⟩
      · cases Option.some.inj (own.symm.trans was)
        exact List.mem_append_right _ (Option.mem_toList.mpr sent)
      · rw [unbound] at was
        cases was
  · refine guarded.apart j other (fewer j other member) later (outside.imp_right fun ⟨k, apart, held⟩ => ?_)
    exact ⟨k, apart, fewer k later held⟩

theorem step (move : Step) (allowed : s.Allows move) : (s.step move).Guarded := by
  cases move with
  | connect conn => exact guarded.connect allowed
  | client conn op => exact guarded.client allowed
  | push k sub =>
    rw [State.step]
    cases s.inits k with
    | some phase => exact guarded
    | none => exact { guarded.push allowed with }
  | subscribe k stream =>
    rw [State.step]
    split
    · exact { guarded with }
    · exact guarded
  | ensurePump k =>
    rw [State.step]
    split
    · rw [State.ensurePump]
      split
      · exact { guarded with }
      · have numbered : ∀ handle next, ({ s with handle := handle, next := next } : State).Guarded :=
          fun _ _ => { guarded with }
        exact { (numbered _ _).setTask (by simp) with }
    · exact guarded
  | ensurePumpElsewhere | streamEnds _ => exact { guarded with }
  | beginPumpTeardown id =>
    rw [State.step]
    split
    · rename_i running
      have idle : s.doomed id = [] := by rw [State.doomed, running]
      have released : (s.setTask id (.leaving [])).Guarded := guarded.setTask (by simp)
      split_ifs
      · rw [State.beginPumpTeardown]
        split
        · split_ifs
          · exact released
          · exact guarded.take idle allowed
        · exact released
      · exact guarded
    · exact guarded
  | destroy id =>
    rw [State.step]
    split
    · rename_i leaving
      exact guarded.destroy leaving
    · exact guarded
  | shutdown id =>
    rw [State.step]
    split
    · split_ifs
      · exact guarded.setTask (by simp)
      · exact guarded
    · exact guarded
  | retirePumpGeneration id =>
    rw [State.step]
    split
    · rw [State.retirePumpGeneration]
      split
      · split_ifs
        · have removed : ({ s with handle := none } : State).Guarded := { guarded with }
          exact removed.setTask (by simp)
        · exact guarded.setTask (by simp)
      · exact guarded.setTask (by simp)
    · exact guarded
  | removeMonitorSubscription conn ioid =>
    exact guarded.shrink (fun _ => List.mem_of_mem_filter) (fun _ _ member => member) (fun _ _ here => here) rfl
  | cleanupConnection conn =>
    refine guarded.shrink (fun _ => List.mem_of_mem_filter) (fun _ _ member => member) (fun c t here => ?_) rfl
    change Function.update s.tables conn none c = some t at here
    rw [Function.update_apply] at here
    split_ifs at here
    exact here
  | retirePumpIfIdle =>
    rw [State.step]
    split_ifs
    · exact guarded
    · rw [State.retirePumpIfIdle]
      split
      · exact { guarded with }
      · exact { guarded with }

theorem run {before rest : List Step} (orderly : s.Orderly (before ++ rest)) : (s.run before).Guarded := by
  induction before generalizing s with
  | nil => exact guarded
  | cons move before ih => exact ih (guarded.step move orderly.1) orderly.2

end

end State.Guarded

/-- Once all is done every subscription has a live pump, and no pump touches its
successor. In an orderly run every subscription handed to a teardown is told, and none
outside the pump's list is destroyed with it. -/
theorem pump_lifecycle (schedule : List Step) (short : schedule.length < 2 ^ 64)
    (finished : (State.initial.run schedule).Finished) :
    (∀ sub ∈ (State.initial.run schedule).subs, (State.initial.run schedule).Live) ∧
      (∀ before move, before ++ [move] <+: schedule → (State.initial.run before).KeepsSuccessor move) ∧
      (State.initial.Orderly schedule → ∀ before id, before ++ [.destroy id] <+: schedule →
        (State.initial.run before).Tells id ∧ (State.initial.run before).Spares id) := by
  refine ⟨fun sub member => ?_, fun before move _ => keepsSuccessor _ move, fun orderly before id inside => ?_⟩
  · exact (State.Tied.initial.run schedule (by simpa [State.initial] using short)).live finished member
  · obtain ⟨rest, rfl⟩ := inside
    rw [List.append_assoc] at orderly
    have guarded := State.Guarded.initial.run orderly
    exact ⟨guarded.tells, guarded.spares⟩

/-- A client with two channels. The stream of a monitor on the first ends and its pump
takes it. Then a second is opened, with a pump of its own, before the first is destroyed. -/
def reopened (sid : UInt32) : List Step :=
  [.connect 1, .client 1 (.insertChannel 5 100 "pv"), .client 1 (.insertChannel 6 101 "pv"),
    .client 1 (.bindMonitor 10 100), .push 0 ⟨1, 10, 100⟩, .subscribe 0 0, .ensurePump 0, .streamEnds 0,
    .beginPumpTeardown 0, .client 1 (.bindMonitor 11 sid), .push 1 ⟨1, 11, sid⟩, .subscribe 1 1, .ensurePump 1,
    .destroy 0, .retirePumpGeneration 0]

theorem reopened_finished (sid : UInt32) : (State.initial.run (reopened sid)).Finished := by
  refine ⟨fun k => ?_, rfl, fun id phase task => ?_⟩
  · rcases k with _ | _ | k
    · exact Or.inr rfl
    · exact Or.inr rfl
    · exact Or.inl rfl
  · rcases id with _ | _ | id
    · exact Or.inl (Option.some.inj task).symm
    · exact Or.inr ⟨1, (Option.some.inj task).symm, rfl, rfl⟩
    · cases task

/-- The second monitor is on the same channel. It is still registered, and its channel is destroyed. -/
theorem teardown_destroys_later_subscription :
    (State.initial.run (reopened 100)).Finished ∧ (⟨1, 11, 100⟩ : Sub) ∈ (State.initial.run (reopened 100)).subs ∧
      (State.initial.run (reopened 100)).destroyed = [(1, 100)] ∧
      ¬ (State.initial.run ((reopened 100).take 13)).Spares 0 := by
  refine ⟨reopened_finished 100, List.mem_singleton.mpr rfl, rfl, fun spares => ?_⟩
  exact spares ⟨1, 10, 100⟩ [] rfl ⟨1, 11, 100⟩ (Or.inl (List.mem_singleton.mpr rfl)) rfl

theorem reopened_orderly : State.initial.Orderly (reopened 101) := by
  have only : ∀ {s : State} {P : Sub → Prop}, s.doomed 0 = [⟨1, 10, 100⟩] → (∀ id, s.doomed (id + 1) = []) → P ⟨1, 10, 100⟩ →
      ∀ id, ∀ sub ∈ s.doomed id, P sub := by
    intro s P first others holds id sub member
    rcases id with _ | id
    · rw [first, List.mem_singleton] at member
      exact member ▸ holds
    · rw [others] at member
      cases member
  refine ⟨?_, ?_, ?_, ?_, ?_, trivial, trivial, trivial, ?_, ?_, ?_, trivial, trivial, trivial, trivial, trivial⟩
  iterate 5
    · intro id sub member
      cases member
  · intro sub member t here
    cases List.mem_singleton.mp member
    cases here
    rfl
  · refine only rfl (fun _ => rfl) fun _ t here => ?_
    cases here
    rfl
  · exact only rfl (fun _ => rfl) (by decide)

theorem pump_lifecycle_reopened :
    (State.initial.run (reopened 101)).destroyed = [(1, 100)] ∧ (State.initial.run (reopened 101)).Live ∧
      (State.initial.run ((reopened 101).take 13)).Tells 0 ∧ (State.initial.run ((reopened 101).take 13)).Spares 0 := by
  obtain ⟨live, _, turns⟩ := pump_lifecycle (reopened 101) (by decide) (reopened_finished 101)
  exact ⟨rfl, live ⟨1, 11, 101⟩ (List.mem_singleton.mpr rfl), turns reopened_orderly _ 0 ⟨[.retirePumpGeneration 0], rfl⟩⟩

end Spvirit.Pumps
