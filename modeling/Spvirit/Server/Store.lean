import Spvirit.Server.Record

/-! Writers of one variable of the store. The monitors are notified after the lock is released. -/

namespace Spvirit.Store

/-- The record and the value of its last post. -/
structure Stored where
  record : RecordInstance
  lastPosted : Option F64

namespace Stored

def payload (e : Stored) : NtPayload := e.record.data.payload

def withData (e : Stored) (d : RecordData) : Stored := { e with record := { e.record with data := d } }

end Stored

inductive Writer where
  | setValue (value : ScalarValue)
  | setArrayValue (value : ScalarArrayValue)
  | putNt (payload : NtPayload)
  | put (value : DecodedValue)

section

variable (ops : RecordOps) (now : NtTimeStamp)

/-- The gate of the monitor deadband, and the value to measure the next change from. -/
def shouldPostUpdate (prevSeverity : Int32) (e : Stored) : Stored × Bool :=
  match e.record.data with
  | .scalar nt =>
    match ops.scalarAsF64 nt.value with
    | none => (e, true)
    | some new =>
      let within := e.record.mdel.positive && nt.alarmSeverity = prevSeverity &&
        (e.lastPosted.any fun last => ops.nearer new last e.record.mdel)
      if within then (e, false) else ({ e with lastPosted := some new }, true)
  | _ => (e, true)

/-- A change passes the gate before it is posted. -/
def gated (prevSeverity : Int32) (e : Stored) : Stored × Option NtPayload :=
  let (e, post) := shouldPostUpdate ops prevSeverity e
  (e, if post then some e.payload else none)

/-- What a writer does under the lock: the record after it and the payload it posts. -/
def Writer.write (w : Writer) (e : Stored) : Stored × Option NtPayload :=
  let prevSeverity := e.record.data.alarmSeverity
  match w with
  | .setValue value =>
    match e.record.data.trySetScalarValue ops now value with
    | some (d, true) => gated ops prevSeverity (e.withData d)
    | _ => (e, none)
  | .setArrayValue value =>
    match e.record.data.setArrayValue now value with
    | (d, true) => (e.withData d, some d.payload)
    | _ => (e, none)
  | .putNt payload =>
    match e.record.data.setNtPayload ops now payload with
    | (d, true) => (e.withData d, some d.payload)
    | _ => (e, none)
  | .put value =>
    match ops.validator value, e.record.writable, e.record.data.applyPut ops now value with
    | .ok _, true, .ok (d, outcome) =>
      if outcome.valueChanged then gated ops prevSeverity (e.withData d)
      else (e.withData d, if outcome.clientStamped then some d.payload else none)
    | _, _, _ => (e, none)

end

/-- A direct subscriber: what its channel holds, and all it has been sent. -/
structure Subscriber where
  queue : List NtPayload
  closed : Bool
  sent : List NtPayload

def Subscriber.new : Subscriber := ⟨[], false, []⟩

/-- A payload that finds the channel full is dropped, one that finds it closed ends
the subscription. -/
def deliverOrKeep (p : NtPayload) (sub : Subscriber) : Option Subscriber :=
  if sub.closed then none
  else if sub.queue.length < 64 then some { sub with queue := sub.queue ++ [p], sent := sub.sent ++ [p] }
  else some sub

/-- How far a writer has come. -/
inductive Phase where
  | waiting
  /-- It has released the lock, and its payload is to be passed to `notifyMonitors`. -/
  | notifying (p : NtPayload)
  | returned

/-- A writer, by its number, takes the lock or notifies the monitors. A client
subscribes, or the subscriber at a position receives or goes away. -/
inductive Step where
  | write (i : Nat)
  | notify (i : Nat)
  | subscribe
  | recv (position : Nat)
  | leave (position : Nat)

structure State where
  stored : Stored
  subscribers : List Subscriber
  phase : Nat → Phase
  /-- The writers that have had the lock, in order. -/
  order : List Nat
  /-- The payloads passed to `notifyMonitors`, in order. -/
  notified : List NtPayload

namespace State

def initial (e : Stored) : State := ⟨e, [], fun _ => .waiting, [], []⟩

/-- The payload last passed to `notifyMonitors`, and the one last sent to each
direct subscriber, is the one the store holds. -/
def EndsOnStored (s : State) : Prop :=
  (∀ p, s.notified.getLast? = some p → p = s.stored.payload) ∧
    ∀ sub ∈ s.subscribers, ∀ p, sub.sent.getLast? = some p → p = s.stored.payload

def Finished (s : State) (writers : List Writer) : Prop := ∀ i < writers.length, s.phase i = .returned

section

variable (ops : RecordOps) (clock : Nat → NtTimeStamp) (writers : List Writer)

/-- The `n`-th writer to take the lock reads `clock n`. -/
def step (s : State) : Step → State
  | .write i =>
    match writers[i]?, s.phase i with
    | some w, .waiting =>
      match w.write ops (clock s.order.length) s.stored with
      | (e, none) => { s with stored := e, phase := Function.update s.phase i .returned, order := s.order ++ [i] }
      | (e, some p) =>
        { s with
          stored := e
          subscribers := s.subscribers.filterMap (deliverOrKeep p)
          phase := Function.update s.phase i (.notifying p)
          order := s.order ++ [i] }
    | _, _ => s
  | .notify i =>
    match s.phase i with
    | .notifying p => { s with phase := Function.update s.phase i .returned, notified := s.notified ++ [p] }
    | _ => s
  | .subscribe => { s with subscribers := s.subscribers.filter (! ·.closed) ++ [.new] }
  | .recv i => { s with subscribers := s.subscribers.modify i fun sub => { sub with queue := sub.queue.tail } }
  | .leave i => { s with subscribers := s.subscribers.modify i fun sub => { sub with closed := true } }

def run (s : State) (schedule : List Step) : State := schedule.foldl (step ops clock writers) s

end

end State

section

variable (ops : RecordOps) (clock : Nat → NtTimeStamp) (writers : List Writer)

def writeBy (i n : Nat) (e : Stored) : Stored × Option NtPayload :=
  match writers[i]? with
  | some w => w.write ops (clock n) e
  | none => (e, none)

/-- The writers one after the other: the record after the last and all payloads posted. -/
def along (n : Nat) (e : Stored) : List Nat → Stored × List NtPayload
  | [] => (e, [])
  | i :: rest =>
    let first := writeBy ops clock writers i n e
    let others := along (n + 1) first.1 rest
    (others.1, first.2.toList ++ others.2)

variable {ops clock writers}

theorem along_append (n : Nat) (e : Stored) (order : List Nat) (i : Nat) :
    let before := along ops clock writers n e order
    let last := writeBy ops clock writers i (n + order.length) before.1
    along ops clock writers n e (order ++ [i]) = (last.1, before.2 ++ last.2.toList) := by
  induction order generalizing n e with
  | nil => simp [along]
  | cons j rest ih =>
    have later := ih (n + 1) (writeBy ops clock writers j n e).1
    have count : n + 1 + rest.length = n + (j :: rest).length := by
      rw [List.length_cons]
      omega
    rw [count] at later
    simp only [List.cons_append, along, later, List.append_assoc]

/-- What holds however the writers take turns. -/
structure State.Sound (ops : RecordOps) (clock : Nat → NtTimeStamp) (writers : List Writer) (e : Stored) (s : State) :
    Prop where
  stored : s.stored = (along ops clock writers 0 e s.order).1
  distinct : s.order.Nodup
  bound : ∀ i ∈ s.order, i < writers.length
  waiting : ∀ i < writers.length, s.phase i = .waiting ↔ i ∉ s.order
  posts : ∀ p, p ∈ (along ops clock writers 0 e s.order).2 ↔ p ∈ s.notified ∨ ∃ i, s.phase i = .notifying p
  sent : ∀ sub ∈ s.subscribers, ∀ p ∈ sub.sent, p ∈ (along ops clock writers 0 e s.order).2

variable {e : Stored} {s : State}

theorem State.Sound.initial : (State.initial e).Sound ops clock writers e := by
  refine ⟨rfl, List.nodup_nil, ?_, ?_, ?_, ?_⟩ <;> simp [State.initial, along]

theorem deliverOrKeep_sent {p q : NtPayload} {sub kept : Subscriber} (delivered : deliverOrKeep p sub = some kept)
    (member : q ∈ kept.sent) : q = p ∨ q ∈ sub.sent := by
  unfold deliverOrKeep at delivered
  split_ifs at delivered
  · cases delivered
    rcases List.mem_append.mp member with before | here
    · exact Or.inr before
    · exact Or.inl (List.mem_singleton.mp here)
  · cases delivered
    exact Or.inr member

/-- The payloads on their way to the monitors, one writer apart. -/
theorem exists_notifying_update (phase : Nat → Phase) (i : Nat) (own : Phase) (p : NtPayload) :
    (∃ j, Function.update phase i own j = .notifying p) ↔ own = .notifying p ∨ ∃ j, j ≠ i ∧ phase j = .notifying p := by
  constructor
  · rintro ⟨j, holds⟩
    by_cases here : j = i
    · subst here
      rw [Function.update_self] at holds
      exact Or.inl holds
    · rw [Function.update_of_ne here] at holds
      exact Or.inr ⟨j, here, holds⟩
  · rintro (holds | ⟨j, apart, holds⟩)
    · exact ⟨i, by rw [Function.update_self, holds]⟩
    · exact ⟨j, by rw [Function.update_of_ne apart, holds]⟩

theorem exists_notifying (phase : Nat → Phase) (i : Nat) (p : NtPayload) :
    (∃ j, phase j = .notifying p) ↔ phase i = .notifying p ∨ ∃ j, j ≠ i ∧ phase j = .notifying p := by
  have split := exists_notifying_update phase i (phase i) p
  rwa [Function.update_eq_self] at split

theorem State.Sound.write (sound : s.Sound ops clock writers e) (i : Nat) :
    (s.step ops clock writers (.write i)).Sound ops clock writers e := by
  rw [State.step]
  split
  · rename_i w mine ready
    have bound : i < writers.length := (List.getElem?_eq_some_iff.mp mine).1
    have new : i ∉ s.order := (sound.waiting i bound).mp ready
    have written : writeBy ops clock writers i s.order.length s.stored = w.write ops (clock s.order.length) s.stored := by
      rw [writeBy, mine]
    have longer := @along_append ops clock writers 0 e s.order i
    dsimp only at longer
    rw [Nat.zero_add, ← sound.stored, written] at longer
    have distinct : (s.order ++ [i]).Nodup :=
      List.nodup_append'.mpr ⟨sound.distinct, List.nodup_singleton i, List.disjoint_singleton.mpr new⟩
    have inside : ∀ j ∈ s.order ++ [i], j < writers.length := by
      intro j member
      rcases List.mem_append.mp member with before | here
      · exact sound.bound j before
      · rw [List.mem_singleton.mp here]
        exact bound
    have waits : ∀ phase, phase ≠ Phase.waiting → ∀ j < writers.length,
        Function.update s.phase i phase j = .waiting ↔ j ∉ s.order ++ [i] := by
      intro phase moved j within
      by_cases here : j = i
      · subst here
        simp [moved]
      · rw [Function.update_of_ne here, sound.waiting j within]
        simp [here]
    split
    · rename_i e' result
      rw [result] at longer
      refine ⟨?_, distinct, inside, waits _ (by simp), ?_, ?_⟩
      · rw [longer]
      · intro p
        rw [longer]
        dsimp only
        rw [Option.toList_none, List.append_nil, sound.posts p, exists_notifying_update, exists_notifying s.phase i, ready]
        simp
      · intro sub member p sent
        rw [longer]
        exact List.mem_append_left _ (sound.sent sub member p sent)
    · rename_i e' p result
      rw [result] at longer
      refine ⟨?_, distinct, inside, waits _ (by simp), ?_, ?_⟩
      · rw [longer]
      · intro q
        rw [longer]
        dsimp only
        rw [List.mem_append, sound.posts q, exists_notifying_update, exists_notifying s.phase i, ready]
        simp only [Option.toList_some, List.mem_singleton, Phase.notifying.injEq, reduceCtorEq, false_or, @eq_comm _ q p]
        rw [or_assoc]
        exact or_congr Iff.rfl or_comm
      · intro kept member q sent
        rw [longer]
        obtain ⟨sub, here, delivered⟩ := List.mem_filterMap.mp member
        rcases deliverOrKeep_sent delivered sent with rfl | before
        · simp
        · exact List.mem_append_left _ (sound.sent sub here q before)
  · exact sound

theorem State.Sound.notify (sound : s.Sound ops clock writers e) (i : Nat) :
    (s.step ops clock writers (.notify i)).Sound ops clock writers e := by
  rw [State.step]
  split
  · rename_i p holding
    refine { sound with waiting := fun j within => ?_, posts := fun q => ?_ }
    · dsimp only
      rw [← sound.waiting j within, Function.update_apply]
      split_ifs with here
      · simp [here, holding]
      · rfl
    · dsimp only
      rw [sound.posts q, exists_notifying_update, exists_notifying s.phase i, holding]
      simp only [List.mem_append, List.mem_singleton, Phase.notifying.injEq, reduceCtorEq, false_or, @eq_comm _ q p]
      tauto
  · exact sound

theorem State.Sound.subscribers (sound : s.Sound ops clock writers e) {subs : List Subscriber}
    (origin : ∀ sub ∈ subs, sub.sent = [] ∨ ∃ old ∈ s.subscribers, sub.sent = old.sent) :
    ({ s with subscribers := subs } : State).Sound ops clock writers e := by
  refine { sound with sent := fun sub member p sent => ?_ }
  rcases origin sub member with none | ⟨old, here, same⟩
  · rw [none] at sent
    cases sent
  · exact sound.sent old here p (same ▸ sent)

theorem sent_of_mem_modify {subs : List Subscriber} {i : Nat} {f : Subscriber → Subscriber}
    (keeps : ∀ sub, (f sub).sent = sub.sent) (sub : Subscriber) (member : sub ∈ subs.modify i f) :
    ∃ old ∈ subs, sub.sent = old.sent := by
  obtain ⟨k, inside, rfl⟩ := List.mem_iff_getElem.mp member
  rw [List.length_modify] at inside
  refine ⟨subs[k], List.getElem_mem inside, ?_⟩
  rw [List.getElem_modify]
  split
  · exact keeps _
  · rfl

section

variable (sound : s.Sound ops clock writers e)

include sound

theorem State.Sound.step (move : Step) : (s.step ops clock writers move).Sound ops clock writers e := by
  cases move with
  | write i => exact sound.write i
  | notify i => exact sound.notify i
  | subscribe =>
    refine sound.subscribers fun sub member => ?_
    rcases List.mem_append.mp member with before | new
    · exact Or.inr ⟨sub, List.mem_of_mem_filter before, rfl⟩
    · rw [List.mem_singleton.mp new]
      exact Or.inl rfl
  | recv i => exact sound.subscribers fun sub member => Or.inr (sent_of_mem_modify (by exact fun _ => rfl) sub member)
  | leave i => exact sound.subscribers fun sub member => Or.inr (sent_of_mem_modify (by exact fun _ => rfl) sub member)

theorem State.Sound.run (schedule : List Step) : (s.run ops clock writers schedule).Sound ops clock writers e := by
  induction schedule generalizing s with
  | nil => exact sound
  | cons move schedule ih => exact ih (sound.step move)

/-- All writers have had the lock once all have returned. -/
theorem State.Sound.complete (finished : s.Finished writers) : s.order.Perm (List.range writers.length) := by
  refine (List.perm_ext_iff_of_nodup sound.distinct List.nodup_range).mpr fun i => ?_
  rw [List.mem_range]
  constructor
  · exact sound.bound i
  · intro within
    by_contra absent
    have idle := (sound.waiting i within).mpr absent
    rw [finished i within] at idle
    cases idle

theorem State.Sound.takes {i : Nat} (within : i < writers.length) (new : i ∉ s.order) :
    (s.step ops clock writers (.write i)).order = s.order ++ [i] ∧
      (s.step ops clock writers (.write i)).notified = s.notified := by
  have mine : writers[i]? = some writers[i] := List.getElem?_eq_getElem within
  rw [State.step, mine, (sound.waiting i within).mpr new]
  dsimp only
  split <;> exact ⟨rfl, rfl⟩

theorem State.Sound.take_all (order : List Nat)
    (distinct : (s.order ++ order).Nodup) (within : ∀ i ∈ order, i < writers.length) :
    (s.run ops clock writers (order.map .write)).order = s.order ++ order ∧
      (s.run ops clock writers (order.map .write)).notified = s.notified := by
  induction order generalizing s with
  | nil => exact ⟨(List.append_nil _).symm, rfl⟩
  | cons i rest ih =>
    have new : i ∉ s.order := fun old => List.disjoint_of_nodup_append distinct old List.mem_cons_self
    obtain ⟨taken, quiet⟩ := sound.takes (within i List.mem_cons_self) new
    have moved : (s.step ops clock writers (.write i)).order ++ rest = s.order ++ i :: rest := by
      rw [taken, List.append_assoc, List.singleton_append]
    obtain ⟨order, notified⟩ := ih (sound.write i) (moved ▸ distinct) fun j later => within j (List.mem_cons_of_mem _ later)
    exact ⟨order.trans moved, notified.trans quiet⟩

end

/-- A writer after its turn to notify. -/
def Phase.settled : Phase → Phase
  | .waiting => .waiting
  | _ => .returned

theorem Phase.settled_settled (phase : Phase) : phase.settled.settled = phase.settled := by
  cases phase <;> rfl

theorem notify_frame (i : Nat) :
    (s.step ops clock writers (.notify i)).stored = s.stored ∧
      (s.step ops clock writers (.notify i)).phase = Function.update s.phase i (s.phase i).settled := by
  rw [State.step]
  cases holding : s.phase i with
  | notifying p => exact ⟨rfl, rfl⟩
  | waiting | returned => exact ⟨rfl, (Function.update_eq_self_iff.mpr holding.symm).symm⟩

theorem notify_all (others : List Nat) :
    (s.run ops clock writers (others.map .notify)).stored = s.stored ∧
      ∀ j, (s.run ops clock writers (others.map .notify)).phase j
        = if j ∈ others then (s.phase j).settled else s.phase j := by
  induction others generalizing s with
  | nil => exact ⟨rfl, fun j => (if_neg List.not_mem_nil).symm⟩
  | cons i rest ih =>
    obtain ⟨stored, phase⟩ := @notify_frame ops clock writers s i
    obtain ⟨later, phases⟩ := @ih (s.step ops clock writers (.notify i))
    refine ⟨later.trans stored, fun j => (phases j).trans ?_⟩
    rw [phase]
    by_cases here : j = i
    · subst here
      rw [Function.update_self, Phase.settled_settled, ite_self, if_pos List.mem_cons_self]
    · rw [Function.update_of_ne here]
      simp only [List.mem_cons, here, false_or]

theorem State.Sound.notify_last (sound : s.Sound ops clock writers e) (all : s.order.Perm (List.range writers.length))
    {i : Nat} {p : NtPayload} (holding : s.phase i = .notifying p) :
    ∃ schedule, (s.run ops clock writers schedule).Finished writers ∧
      (s.run ops clock writers schedule).stored = s.stored ∧
      (s.run ops clock writers schedule).notified.getLast? = some p := by
  let others := (List.range writers.length).filter (· ≠ i)
  obtain ⟨stored, phases⟩ := @notify_all ops clock writers s others
  have mine := phases i
  rw [if_neg (by simp [others]), holding] at mine
  refine ⟨others.map .notify ++ [.notify i], ?_⟩
  rw [State.run, List.foldl_append]
  change State.Finished (State.step ops clock writers (s.run ops clock writers (others.map .notify)) (.notify i)) writers ∧ _
  obtain ⟨kept, phase⟩ := @notify_frame ops clock writers (s.run ops clock writers (others.map .notify)) i
  refine ⟨fun j within => ?_, kept.trans stored, ?_⟩
  · rw [phase, mine]
    by_cases here : j = i
    · subst here
      exact Function.update_self _ _ _
    · have written : s.phase j ≠ .waiting := fun idle =>
        (sound.waiting j within).mp idle (all.mem_iff.mpr (List.mem_range.mpr within))
      rw [Function.update_of_ne here, phases j, if_pos (by simp [others, within, here])]
      cases reached : s.phase j with
      | waiting => exact absurd reached written
      | notifying _ | returned => rfl
  · change (State.step ops clock writers (s.run ops clock writers (others.map .notify)) (.notify i)).notified.getLast? = _
    rw [State.step, mine]
    exact List.getLast?_concat

theorem State.Sound.ends (sound : s.Sound ops clock writers e)
    (same : ∀ p ∈ (along ops clock writers 0 e s.order).2, p = (along ops clock writers 0 e s.order).1.payload) :
    s.EndsOnStored := by
  rw [← sound.stored] at same
  constructor
  · intro p last
    exact same p ((sound.posts p).mpr (Or.inl (List.mem_of_getLast? last)))
  · intro sub member p last
    exact same p (sound.sent sub member p (List.mem_of_getLast? last))

/-- Every interleaving ends on what is stored exactly if, in whatever order the
writers take the lock, each payload posted is the one the record has in the end. -/
theorem notifications_end_on_stored_iff (ops : RecordOps) (clock : Nat → NtTimeStamp) (writers : List Writer)
    (e : Stored) :
    (∀ schedule, ((State.initial e).run ops clock writers schedule).Finished writers →
      ((State.initial e).run ops clock writers schedule).EndsOnStored) ↔
    ∀ order : List Nat, order.Perm (List.range writers.length) →
      ∀ p ∈ (along ops clock writers 0 e order).2, p = (along ops clock writers 0 e order).1.payload := by
  constructor
  · intro ends order perm p posted
    -- All take the lock in this order, and the writer of this payload is the last to notify.
    have fresh := @State.Sound.initial ops clock writers e
    have within : ∀ i ∈ order, i < writers.length := fun i member => List.mem_range.mp (perm.mem_iff.mp member)
    obtain ⟨taken, quiet⟩ := fresh.take_all order (perm.nodup_iff.mpr List.nodup_range) within
    have sound := fresh.run (order.map .write)
    have taken : ((State.initial e).run ops clock writers (order.map .write)).order = order := taken
    obtain ⟨i, holding⟩ : ∃ i, ((State.initial e).run ops clock writers (order.map .write)).phase i = .notifying p := by
      rcases (sound.posts p).mp (by rwa [taken]) with old | holding
      · rw [quiet] at old
        cases old
      · exact holding
    obtain ⟨schedule, finished, stored, last⟩ := sound.notify_last (by rwa [taken]) holding
    have joined : (State.initial e).run ops clock writers (order.map .write ++ schedule) =
        ((State.initial e).run ops clock writers (order.map .write)).run ops clock writers schedule := List.foldl_append
    rw [← joined] at finished stored last
    have same := (ends _ finished).1 p last
    rwa [stored, sound.stored, taken] at same
  · intro same schedule finished
    have sound := (@State.Sound.initial ops clock writers e).run schedule
    exact sound.ends (same _ (sound.complete finished))

def counter (n : Int32) : NtScalar := { value := .i32 n, timeStamp := some ⟨n.toInt64, 0, 0⟩ }

/-- A scalar record at zero, without a deadband. -/
def counterRecord : Stored := ⟨⟨.scalar (counter 0), true, ⟨0⟩⟩, none⟩

/-- Operations for values of the record's own type: no alarm is computed and no field is a time stamp. -/
def plainOps : RecordOps where
  computeAlarms := false
  coerceInto _ v := some v
  updateAlarmFromValue nt := nt
  ndArrayValid _ := true
  applyPutFields data _ := .ok (data, false)
  clientTimestamp _ := none
  clientDataTimestamp _ := none
  validator _ := .ok ()
  scalarAsF64 _ := none
  nearer _ _ _ := false

/-- The second writer takes the lock after the first and notifies before it. -/
theorem first_writer_notifies_last :
    let writers := [.putNt (.scalar (counter 1)), .putNt (.scalar (counter 2))]
    let s := (State.initial counterRecord).run plainOps (fun _ => {}) writers [.write 0, .write 1, .notify 1, .notify 0]
    s.Finished writers ∧ s.notified.getLast? = some (.scalar (counter 1)) ∧ s.stored.payload = .scalar (counter 2) ∧
      ¬ s.EndsOnStored := by
  intro writers s
  have last : s.notified.getLast? = some (.scalar (counter 1)) := rfl
  have stored : s.stored.payload = .scalar (counter 2) := rfl
  refine ⟨fun i within => ?_, last, stored, fun ends => ?_⟩
  · change i < 2 at within
    interval_cases i <;> rfl
  · have same := ends.1 _ last
    rw [stored] at same
    exact absurd same (by simp [counter])

end

end Spvirit.Store
