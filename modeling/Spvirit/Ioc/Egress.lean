import Spvirit.Ioc.Brake
import Spvirit.Ioc.Lockset
import Spvirit.Ioc.Reference

/-! The way of a pass's events to the monitor registry. -/

namespace Spvirit.Ioc.Engine

open Fallible

/-- Depth of the queue between the scan threads and the task that notifies the registry. -/
def notifyQueue : Nat := 1024

abbrev Event := String × NtScalar

/-- A put sets `VAL` and then processes the record. -/
def putValue {n : Nat} {ω : Type} (db : Fin n → Config (Fin n)) (host : Host n ω) (id : Fin n) (value : Value) :
    Action n ω Unit := do
  writeField db id (process db host) .val value
  process db host id

/-- A context without the asynchronous supports. -/
def Host.plain {n : Nat} {ω : Type} (host : Host n ω) : Host n ω := { host with asyncRegistry := fun _ => none }

namespace RecordDb

variable (db : RecordDb)

def lockSet (k : Fin db.lockSets.length) : Fin (db.lockSets.get k).length → Config (Fin (db.lockSets.get k).length) :=
  db.wired (List.getElem?_eq_getElem k.isLt)

/-- The cells of all records. -/
abbrev SetCells : Type := (k : Fin db.lockSets.length) → Fin (db.lockSets.get k).length → Cells

end RecordDb

/-- Which way the events of a pass go. -/
inductive Route where
  /-- They are returned, and the caller of the put notifies the registry. -/
  | put
  /-- The scanner hands them to the queue. -/
  | scan
  deriving DecidableEq, Repr

/-- The engine and the events on their way, each with the number of its pass. -/
structure Egress (db : RecordDb) (ω : Type) where
  cells : db.SetCells
  world : ω
  /-- Whether `start_scanning` has installed the queue. -/
  notifying : Bool := false
  queue : List (Nat × Event) := []
  delivered : List (Nat × Event) := []
  dropped : Nat := 0
  /-- The passes so far, with what they posted. -/
  passes : List (Route × List Event) := []
  /-- What is still to be handed on of the events of a pass. -/
  left : Nat → List Event := fun _ => []

inductive Act (db : RecordDb) where
  | put (k : Fin db.lockSets.length) (id : Fin (db.lockSets.get k).length) (value : Value)
  | scan (k : Fin db.lockSets.length) (id : Fin (db.lockSets.get k).length)
  /-- The caller of a put notifies the registry of the next event. -/
  | notify (pass : Nat)
  /-- `send_notify` for the next event of a scan pass. -/
  | send (pass : Nat)
  /-- The task takes an event from the queue and notifies the registry. -/
  | drain
  | startScanning

namespace Egress

variable {db : RecordDb} {ω : Type} (hosts : (k : Fin db.lockSets.length) → Host (db.lockSets.get k).length ω)

def pass (k : Fin db.lockSets.length) (route : Route) (t : Pass (db.lockSets.get k).length ω) (left : List Event)
    (e : Egress db ω) : Egress db ω :=
  { e with
    cells := Function.update e.cells k t.cells
    world := t.world
    passes := e.passes ++ [(route, t.events)]
    left := Function.update e.left e.passes.length left }

/-- A put that fails returns no events; a scan pass flushes them whatever its result. -/
def step (e : Egress db ω) : Act db → Egress db ω
  | .put k id value =>
    let result := putValue (db.lockSet k) (hosts k).plain id value (freshPass (e.cells k) e.world)
    match result.1 with
    | .ok _ => e.pass k .put result.2 result.2.events
    | .error _ => e.pass k .put result.2 []
  | .scan k id =>
    let result := process (db.lockSet k) (hosts k) id (freshPass (e.cells k) e.world)
    e.pass k .scan result.2 result.2.events
  | .notify number =>
    match e.passes[number]?, e.left number with
    | some (.put, _), event :: rest =>
      { e with delivered := e.delivered ++ [(number, event)], left := Function.update e.left number rest }
    | _, _ => e
  | .send number =>
    match e.passes[number]?, e.left number with
    | some (.scan, _), event :: rest =>
      if e.notifying && e.queue.length < notifyQueue then
        { e with queue := e.queue ++ [(number, event)], left := Function.update e.left number rest }
      else
        { e with
          dropped := if e.notifying then (e.dropped + 1) % 2 ^ 64 else e.dropped
          left := Function.update e.left number rest }
    | _, _ => e
  | .drain =>
    match e.queue with
    | entry :: rest => { e with queue := rest, delivered := e.delivered ++ [entry] }
    | [] => e
  | .startScanning => { e with notifying := true }

def run (e : Egress db ω) (acts : List (Act db)) : Egress db ω := acts.foldl (step hosts) e

/-- The pass of a put returns, and the queue has room for an event that is sent. -/
def Meets (e : Egress db ω) : Act db → Prop
  | .put k id value => (putValue (db.lockSet k) (hosts k).plain id value (freshPass (e.cells k) e.world)).1 = .ok ()
  | .send _ => e.notifying = true ∧ e.queue.length < notifyQueue
  | .scan _ _ | .notify _ | .drain | .startScanning => True

/-- Every step meets the condition where it is made. -/
def AllMeet : Egress db ω → List (Act db) → Prop
  | _, [] => True
  | e, act :: rest => e.Meets hosts act ∧ AllMeet (e.step hosts act) rest

/-- The events of a pass among those that are on their way. -/
def eventsOf (number : Nat) (entries : List (Nat × Event)) : List Event :=
  (entries.filter (·.1 = number)).map Prod.snd

@[simp] theorem eventsOf_nil (number : Nat) : eventsOf number [] = [] := rfl

@[simp] theorem eventsOf_append (number : Nat) (first second : List (Nat × Event)) :
    eventsOf number (first ++ second) = eventsOf number first ++ eventsOf number second := by
  simp [eventsOf]

theorem eventsOf_cons (number : Nat) (entry : Nat × Event) (rest : List (Nat × Event)) :
    eventsOf number (entry :: rest) = (if entry.1 = number then [entry.2] else []) ++ eventsOf number rest := by
  unfold eventsOf
  rw [List.filter_cons]
  by_cases same : entry.1 = number <;> simp [same]

def postedBy (e : Egress db ω) (number : Nat) : List Event := (e.passes[number]?.map Prod.snd).getD []

/-- Every event that was posted is delivered, queued or left to be handed on: exactly once, and in
the order of posting. -/
structure Accounted (e : Egress db ω) : Prop where
  events : ∀ number, eventsOf number e.delivered ++ eventsOf number e.queue ++ e.left number = e.postedBy number
  direct : ∀ number posted, e.passes[number]? = some (.put, posted) → eventsOf number e.queue = []

variable {hosts}

variable {e : Egress db ω} {number : Nat}

theorem Accounted.future (accounted : e.Accounted) (later : e.passes.length ≤ number) :
    eventsOf number e.delivered = [] ∧ eventsOf number e.queue = [] ∧ e.left number = [] := by
  have absent : e.postedBy number = [] := by simp [postedBy, List.getElem?_eq_none later]
  have empty := (accounted.events number).trans absent
  simp only [List.append_eq_nil_iff] at empty
  exact ⟨empty.1.1, empty.1.2, empty.2⟩

theorem passes_append {entry : Route × List Event}
    (other : number ≠ e.passes.length) : (e.passes ++ [entry])[number]? = e.passes[number]? := by
  rcases Nat.lt_or_gt_of_ne other with before | after
  · exact List.getElem?_append_left before
  · rw [List.getElem?_eq_none (by simpa using after), List.getElem?_eq_none (by omega)]

theorem pass_accounted (accounted : e.Accounted) (k : Fin db.lockSets.length) (route : Route)
    (t : Pass (db.lockSets.get k).length ω) : (e.pass k route t t.events).Accounted := by
  obtain ⟨delivered, queue, _⟩ := accounted.future (Nat.le_refl e.passes.length)
  refine ⟨fun number => ?_, fun number posted put => ?_⟩
  · by_cases own : number = e.passes.length
    · subst own
      simp [pass, postedBy, delivered, queue]
    · simp only [pass, postedBy, passes_append own, Function.update_of_ne own]
      exact accounted.events number
  · by_cases own : number = e.passes.length
    · subst own
      exact queue
    · simp only [pass, passes_append own] at put
      exact accounted.direct number posted put

theorem drain_accounted (accounted : e.Accounted) : (e.step hosts .drain).Accounted := by
  cases waiting : e.queue with
  | nil =>
    simp only [step, waiting]
    exact accounted
  | cons entry rest =>
    simp only [step, waiting]
    refine ⟨fun number => ?_, fun number posted put => ?_⟩
    · have events := accounted.events number
      rw [waiting, eventsOf_cons] at events
      change eventsOf number (e.delivered ++ [entry]) ++ eventsOf number rest ++ e.left number = e.postedBy number
      rw [← events, eventsOf_append, eventsOf_cons]
      simp only [eventsOf_nil, List.append_nil, List.append_assoc]
    · have direct := accounted.direct number posted put
      rw [waiting, eventsOf_cons, List.append_eq_nil_iff] at direct
      exact direct.2

theorem take_accounted (accounted : e.Accounted) {event : Event} {rest : List Event}
    (next : e.left number = event :: rest) {queue delivered : List (Nat × Event)}
    (own : eventsOf number delivered ++ eventsOf number queue =
      eventsOf number e.delivered ++ eventsOf number e.queue ++ [event])
    (others : ∀ other, other ≠ number → eventsOf other delivered = eventsOf other e.delivered ∧
      eventsOf other queue = eventsOf other e.queue)
    (direct : ∀ posted, e.passes[number]? = some (.put, posted) → eventsOf number queue = []) :
    ({ e with queue, delivered, left := Function.update e.left number rest } : Egress db ω).Accounted := by
  refine ⟨fun other => ?_, fun other posted put => ?_⟩
  · by_cases same : other = number
    · subst same
      have events := accounted.events other
      change eventsOf other delivered ++ eventsOf other queue ++ Function.update e.left other rest other =
        e.postedBy other
      rw [← events, own, Function.update_self, next]
      simp only [List.append_assoc, List.singleton_append]
    · simp only [others other same, Function.update_of_ne same]
      exact accounted.events other
  · by_cases same : other = number
    · subst same
      exact direct posted put
    · simp only [others other same]
      exact accounted.direct other posted put

theorem eventsOf_single_self (number : Nat) (event : Event) : eventsOf number [(number, event)] = [event] := by
  simp [eventsOf]

theorem eventsOf_single_other {other : Nat} (apart : other ≠ number) (event : Event) :
    eventsOf other [(number, event)] = [] := by
  simp [eventsOf, apart.symm]

theorem notify_accounted (accounted : e.Accounted) (number : Nat) :
    (e.step hosts (.notify number)).Accounted := by
  rcases made : e.passes[number]? with _ | ⟨_ | _, posted⟩
  · simpa only [step, made] using accounted
  · cases next : e.left number with
    | nil => simpa only [step, made, next] using accounted
    | cons event rest =>
      simp only [step, made, next]
      have direct := accounted.direct number posted made
      refine take_accounted accounted next ?_ (fun other apart => ⟨?_, rfl⟩) fun _ _ => direct
      · rw [eventsOf_append, eventsOf_single_self, direct]
        simp
      · rw [eventsOf_append, eventsOf_single_other apart, List.append_nil]
  · simpa only [step, made] using accounted

theorem send_accounted (accounted : e.Accounted) (number : Nat) (started : e.notifying = true)
    (room : e.queue.length < notifyQueue) : (e.step hosts (.send number)).Accounted := by
  rcases made : e.passes[number]? with _ | ⟨_ | _, posted⟩
  · simpa only [step, made] using accounted
  · simpa only [step, made] using accounted
  · cases next : e.left number with
    | nil => simpa only [step, made, next] using accounted
    | cons event rest =>
      simp only [step, made, next]
      rw [if_pos (by simp [started, room])]
      refine take_accounted accounted next ?_ (fun other apart => ⟨rfl, ?_⟩) fun posted put => ?_
      · rw [eventsOf_append, eventsOf_single_self, List.append_assoc]
      · rw [eventsOf_append, eventsOf_single_other apart, List.append_nil]
      · cases made.symm.trans put

theorem step_accounted (accounted : e.Accounted) {act : Act db} (meets : e.Meets hosts act) :
    (e.step hosts act).Accounted := by
  cases act with
  | put k id value =>
    simp only [step, show _ = Except.ok () from meets]
    exact pass_accounted accounted k .put _
  | scan k id => exact pass_accounted accounted k .scan _
  | notify number => exact notify_accounted accounted number
  | send number => exact send_accounted accounted number meets.1 meets.2
  | drain => exact drain_accounted accounted
  | startScanning => exact ⟨accounted.events, accounted.direct⟩

/-- Every reference is that of the start, or as an event that was posted left it. -/
def Referenced (start : db.SetCells) (e : Egress db ω) : Prop :=
  ∀ k j, Posted (db.lockSet k) (e.passes.flatMap Prod.snd) j (start k j) (e.cells k j)

theorem pass_referenced {start : db.SetCells}
    (referenced : e.Referenced start) {k : Fin db.lockSets.length} {route : Route}
    {t : Pass (db.lockSets.get k).length ω} {left : List Event}
    (posts : Posts (db.lockSet k) (freshPass (e.cells k) e.world) t) : (e.pass k route t left).Referenced start := by
  obtain ⟨events, added, posted⟩ := posts
  intro l j
  have grown : e.passes.flatMap Prod.snd ⊆ (e.pass k route t left).passes.flatMap Prod.snd := by
    simp [pass, List.flatMap_append]
  have earlier := (referenced l j).mono grown
  by_cases own : l = k
  · subst own
    refine earlier.trans ?_
    have same : (e.pass l route t left).cells l = t.cells := Function.update_self ..
    rw [same]
    refine (posted j).mono fun event member => ?_
    simp only [pass, List.flatMap_append, List.mem_append]
    refine Or.inr ?_
    simp only [List.flatMap_cons, List.flatMap_nil, List.append_nil]
    rw [added]
    exact List.mem_append_right _ member
  · have same : (e.pass k route t left).cells l = e.cells l := Function.update_of_ne own ..
    rw [same]
    exact earlier

theorem step_referenced {start : db.SetCells}
    (referenced : e.Referenced start) (act : Act db) : (e.step hosts act).Referenced start := by
  cases act with
  | put k id value =>
    have written := @posts_write _ ω (db.lockSet k) id .val value (freshPass (e.cells k) e.world)
    have posts : Posts (db.lockSet k) (freshPass (e.cells k) e.world)
        (putValue (db.lockSet k) (hosts k).plain id value (freshPass (e.cells k) e.world)).2 :=
      written.trans (process_posts (hosts k).plain id _)
    simp only [step]
    cases (putValue (db.lockSet k) (hosts k).plain id value (freshPass (e.cells k) e.world)).1 with
    | ok _ | error _ => exact pass_referenced referenced posts
  | scan k id => exact pass_referenced referenced (process_posts (hosts k) id _)
  | notify number =>
    rcases made : e.passes[number]? with _ | ⟨_ | _, posted⟩
    · simpa only [step, made] using referenced
    · cases next : e.left number <;> simp only [step, made, next] <;> exact referenced
    · simpa only [step, made] using referenced
  | send number =>
    rcases made : e.passes[number]? with _ | ⟨_ | _, posted⟩
    · simpa only [step, made] using referenced
    · simpa only [step, made] using referenced
    · cases next : e.left number with
      | nil => simpa only [step, made, next] using referenced
      | cons event rest =>
        simp only [step, made, next]
        split_ifs <;> exact referenced
  | drain =>
    cases waiting : e.queue <;> simp only [step, waiting] <;> exact referenced
  | startScanning => exact referenced

/-- Before any pass. -/
def init (cells : db.SetCells) (world : ω) : Egress db ω :=
  { cells, world }

theorem init_accounted (cells : db.SetCells) (world : ω) :
    (init cells world).Accounted :=
  ⟨fun _ => rfl, fun _ _ put => by cases put⟩

theorem run_accounted {cells : db.SetCells}
    (accounted : e.Accounted) (referenced : e.Referenced cells) {acts : List (Act db)} (meets : AllMeet hosts e acts) :
    (e.run hosts acts).Accounted ∧ (e.run hosts acts).Referenced cells := by
  induction acts generalizing e with
  | nil => exact ⟨accounted, referenced⟩
  | cons act rest ih => exact ih (step_accounted accounted meets.1) (step_referenced referenced act) meets.2

end Egress

/-- A put to a lock set in which the recursion is braked returns. -/
theorem putValue_ok {n : Nat} {ω : Type} {records : Fin n → Config (Fin n)} {host : Host n ω} (few : n ≤ maxDepth)
    (acyclic : DisableAcyclic records) (id : Fin n) (value : Value) (cells : Fin n → Cells) (world : ω) :
    (putValue records host.plain id value (freshPass cells world)).1 = .ok () := by
  have written := @quiet_write n ω records id .val value (freshPass cells world)
  have rested : Rested ((freshPass cells world).write records id .val value) _ :=
    ⟨fun _ => rfl, written.depth, written.stack⟩
  exact (process_brakes acyclic (fun _ => rfl) few rested).1.ok

namespace PutRuns

/-- A record whose disable link is a constant. -/
def plain : RecordDb := RecordDb.build fun _ : Fin 1 => { name := "A", kind := .longOut }

/-- A record that is processed for its own disable check. -/
def looped : RecordDb :=
  RecordDb.build fun _ : Fin 1 => { name := "A", kind := .longOut, sdis := .db "A" .val true false }

def hosts (db : RecordDb) (k : Fin db.lockSets.length) : Host (db.lockSets.get k).length Unit := plainHost _

def cells (db : RecordDb) (k : Fin db.lockSets.length) (_ : Fin (db.lockSets.get k).length) : Cells := {}

def plainPut : Act plain := .put ⟨0, by decide +kernel⟩ ⟨0, by decide +kernel⟩ (.long 5)

def plainScan : Act plain := .scan ⟨0, by decide +kernel⟩ ⟨0, by decide +kernel⟩

def loopedPut : Act looped := .put ⟨0, by decide +kernel⟩ ⟨0, by decide +kernel⟩ (.long 5)

end PutRuns

end Spvirit.Ioc.Engine
