import Mathlib.Tactic

/-! Named events: sinks called by the post itself, handlers queued for one dispatcher task, and
what their panics do. -/

namespace Spvirit.Events

variable {σ η : Type}

/-- One queued unit of work. -/
structure Dispatch (η : Type) where
  handler : η
  event : String
  deriving DecidableEq

structure Registry (σ η : Type) where
  sinks : List σ
  handlers : String → List η

def dispatchQueueCapacity : Nat := 1024

/-- The shared state, its counters modulo `2 ^ 64`, the handlers the running post has still to
send, and what has happened so far: the posts, the calls of sinks, the handlers queued, reached and
lost, the panics. -/
structure State (σ η : Type) where
  queue : List (Dispatch η) := []
  pending : List (Dispatch η) := []
  running : Option (Dispatch η) := none
  unwound : Bool := false
  inflight : Nat := 0
  dropped : Nat := 0
  failed : Nat := 0
  posts : List String := []
  called : List (σ × String) := []
  queued : List (Dispatch η) := []
  reached : List (Dispatch η) := []
  lost : Nat := 0
  panics : Nat := 0

/-- The calls of the sinks, each with its future inside what is guarded, so that it makes no
difference when a sink panics. -/
def callSinks (event : String) : List σ → (Nat → Bool) → State σ η → State σ η
  | [], _, s => s
  | sink :: sinks, panics, s =>
    callSinks event sinks (fun k => panics (k + 1)) { s with
      called := s.called ++ [(sink, event)]
      failed := (s.failed + (panics 0).toNat) % 2 ^ 64
      panics := s.panics + (panics 0).toNat }

/-- A post up to the reservation of its handlers, with the sinks that panic; one of its sends; the
dispatcher, which calls the next handler or polls the one it has called to its end. -/
inductive Step where
  | post (event : String) (panics : Nat → Bool)
  | send
  | dispatch (panics : Bool)

/-- A step of a server whose dispatcher is started and not aborted. The posts follow each other. -/
def step (r : Registry σ η) (s : State σ η) : Step → State σ η
  | .post event panics =>
    if s.pending ≠ [] then s
    else
      let batch := (r.handlers event).map fun handler => ⟨handler, event⟩
      let s := callSinks event r.sinks panics s
      { s with posts := s.posts ++ [event], inflight := s.inflight + batch.length, pending := batch }
  | .send =>
    match s.pending with
    | [] => s
    | d :: rest =>
      if s.unwound ∨ dispatchQueueCapacity ≤ s.queue.length then
        { s with pending := rest, inflight := s.inflight - 1, lost := s.lost + 1
                 dropped := (s.dropped + 1) % 2 ^ 64 }
      else { s with pending := rest, queue := s.queue ++ [d], queued := s.queued ++ [d] }
  | .dispatch panics =>
    match s.running, s.queue with
    | some _, _ =>
      { s with running := none, inflight := s.inflight - 1, failed := (s.failed + panics.toNat) % 2 ^ 64
               panics := s.panics + panics.toNat }
    | none, [] => s
    | none, d :: rest =>
      -- the call is made before the guard is set up: its panic unwinds the task and drops the queue
      if panics then { s with queue := [], unwound := true, reached := s.reached ++ [d], panics := s.panics + 1 }
      else { s with queue := rest, running := some d, reached := s.reached ++ [d] }

def run (r : Registry σ η) (s : State σ η) (steps : List Step) : State σ η := steps.foldl (step r) s

/-- No handler panics when it is called. -/
def Step.Calm (s : State σ η) : Step → Prop
  | .dispatch panics => panics = true → s.running.isSome
  | _ => True

/-- So in every step of a run. -/
def Calm (r : Registry σ η) : State σ η → List Step → Prop
  | _, [] => True
  | s, now :: steps => now.Calm s ∧ Calm r (step r s now) steps

/-- Panics are contained: every sink has been called once for each post, in order; the handlers
queued are those reached and behind them those still in the queue; every panic is counted. -/
structure State.Contained (r : Registry σ η) (s : State σ η) : Prop where
  called : s.called = s.posts.flatMap fun event => r.sinks.map fun sink => (sink, event)
  queued : s.queued = s.reached ++ s.queue
  failed : s.failed = s.panics % 2 ^ 64
  alive : s.unwound = false

def dispatches (steps : List Step) : Nat := steps.countP fun now => now matches .dispatch _

variable {r : Registry σ η} {s t u : State σ η}

theorem callSinks_eq (event : String) (sinks : List σ) (panics : Nat → Bool) (s : State σ η) :
    ∃ n failed, callSinks event sinks panics s = { s with
      called := s.called ++ sinks.map fun sink => (sink, event)
      failed := failed
      panics := s.panics + n } ∧ (s.failed = s.panics % 2 ^ 64 → failed = (s.panics + n) % 2 ^ 64) := by
  induction sinks generalizing panics s with
  | nil => exact ⟨0, s.failed, by simp [callSinks], id⟩
  | cons sink sinks ih =>
    obtain ⟨n, failed, rest, counted⟩ := ih (fun k => panics (k + 1)) { s with
      called := s.called ++ [(sink, event)]
      failed := (s.failed + (panics 0).toNat) % 2 ^ 64
      panics := s.panics + (panics 0).toNat }
    refine ⟨(panics 0).toNat + n, failed, by rw [callSinks, rest]; simp [Nat.add_assoc], fun before => ?_⟩
    rw [counted (by rw [before, Nat.mod_add_mod]), Nat.add_assoc]

/-- So many steps of the dispatcher: a handler takes two, its call and its end. They have reached
the handlers queued before, unless there were too few of them. -/
structure Moves (s t : State σ η) (turns : Nat) : Prop where
  queued : s.queued <+: t.queued
  reached : s.reached <+: t.reached
  turns : s.queued <+: t.reached ∨ 2 * t.reached.length + s.running.isSome.toNat =
    2 * s.reached.length + t.running.isSome.toNat + turns

theorem Moves.still (queued : s.queued = t.queued) (reached : s.reached = t.reached) (running : s.running = t.running) :
    Moves s t 0 :=
  ⟨queued ▸ List.prefix_refl _, reached ▸ List.prefix_refl _, Or.inr (by rw [reached, running, Nat.add_zero])⟩

theorem Moves.trans {j k : Nat} (first : Moves s t j) (second : Moves t u k) : Moves s u (j + k) := by
  refine ⟨first.queued.trans second.queued, first.reached.trans second.reached, ?_⟩
  rcases first.turns with all | counted
  · exact Or.inl (all.trans second.reached)
  rcases second.turns with all | more
  · exact Or.inl (first.queued.trans all)
  · exact Or.inr (by omega)

theorem State.Contained.step (contained : s.Contained r) {now : Step} (calm : now.Calm s) :
    (Events.step r s now).Contained r ∧ Moves s (Events.step r s now) (dispatches [now]) := by
  obtain ⟨called, queued, failed, alive⟩ := contained
  cases now with
  | post event panics =>
    obtain ⟨n, _, sinks, count⟩ := callSinks_eq event r.sinks panics s
    by_cases busy : s.pending ≠ []
    · rw [Events.step, if_pos busy]
      exact ⟨⟨called, queued, failed, alive⟩, .still rfl rfl rfl⟩
    · rw [Events.step, if_neg busy]
      dsimp only
      rw [sinks]
      exact ⟨⟨by simp [called], queued, count failed, alive⟩, .still rfl rfl rfl⟩
  | send =>
    rcases pending : s.pending with _ | ⟨d, rest⟩
    · simp only [Events.step, pending]
      exact ⟨⟨called, queued, failed, alive⟩, .still rfl rfl rfl⟩
    · simp only [Events.step, pending]
      split_ifs
      · exact ⟨⟨called, queued, failed, alive⟩, .still rfl rfl rfl⟩
      · exact ⟨⟨called, by simp [queued], failed, alive⟩, List.prefix_append _ _, List.prefix_refl _, Or.inr rfl⟩
  | dispatch panics =>
    rcases running : s.running with _ | d
    · rcases queue : s.queue with _ | ⟨d, rest⟩
      · simp only [Events.step, running, queue]
        refine ⟨⟨called, queued, failed, alive⟩, List.prefix_refl _, List.prefix_refl _, Or.inl ?_⟩
        rw [queued, queue, List.append_nil]
      · have returns : panics = false := by simpa [Step.Calm, running] using calm
        simp only [Events.step, running, queue, returns, Bool.false_eq_true, if_false]
        refine ⟨⟨called, by simp [queued, queue], failed, alive⟩, List.prefix_refl _, List.prefix_append _ _, Or.inr ?_⟩
        simp [running, dispatches]
        omega
    · simp only [Events.step, running]
      refine ⟨⟨called, queued, by rw [failed, Nat.mod_add_mod], alive⟩, List.prefix_refl _, List.prefix_refl _, Or.inr ?_⟩
      simp [running, dispatches]

theorem State.Contained.run (contained : s.Contained r) {steps : List Step} (calm : Calm r s steps) :
    (Events.run r s steps).Contained r ∧ Moves s (Events.run r s steps) (dispatches steps) := by
  induction steps generalizing s with
  | nil => exact ⟨contained, .still rfl rfl rfl⟩
  | cons now steps ih =>
    obtain ⟨next, first⟩ := contained.step calm.1
    obtain ⟨ended, rest⟩ := ih next calm.2
    have counted : dispatches (now :: steps) = dispatches [now] + dispatches steps := by
      rw [← List.singleton_append, dispatches, List.countP_append]
      rfl
    exact ⟨ended, counted ▸ first.trans rest⟩

/-- In every run without a panic in the call of a handler the panics are contained, and whatever
is queued is reached once the dispatcher has had two steps for each handler in the queue. -/
theorem panics_contained (r : Registry σ η) (steps : List Step) (calm : Calm r {} steps) :
    (run r {} steps).Contained r ∧ ∀ more, Calm r (run r {} steps) more →
      2 * (run r {} steps).queue.length < dispatches more →
        (run r {} steps).queued <+: (run r (run r {} steps) more).reached := by
  have initial : ({} : State σ η).Contained r := ⟨rfl, rfl, rfl, rfl⟩
  obtain ⟨contained, -⟩ := initial.run calm
  refine ⟨contained, fun more calm enough => ?_⟩
  generalize run r {} steps = s at contained calm enough ⊢
  obtain ⟨ended, moves⟩ := contained.run calm
  rcases moves.turns with all | counted
  · exact all
  · have whole := congrArg List.length contained.queued
    have most := Bool.toNat_le s.running.isSome
    rw [List.length_append] at whole
    exact List.prefix_of_prefix_length_le (ended.queued ▸ moves.queued) (List.prefix_append _ _) (by omega)

/-- A sink panics, and a handler when it is polled; both are counted and the next handler is reached. -/
theorem panics_contained_polled :
    let r : Registry Unit Bool := ⟨[()], fun _ => [false, true]⟩
    let steps := [.post "e" fun _ => true, .send, .send, .dispatch false, .dispatch true, .dispatch false]
    (run r {} steps).Contained r ∧ (run r {} steps).failed = 2 ∧ (run r {} steps).running = some ⟨true, "e"⟩ := by
  intro r steps
  have calm : Calm r {} steps :=
    ⟨trivial, trivial, trivial, Bool.false_ne_true.elim, fun _ => rfl, Bool.false_ne_true.elim, trivial⟩
  exact ⟨(panics_contained r steps calm).1, rfl, rfl⟩

/-- A handler panics when it is called: the panic is not counted, and the handler behind it is lost. -/
theorem call_panic_escapes :
    let r : Registry Unit Bool := ⟨[], fun _ => [false, true]⟩
    let s := run r {} [.post "e" fun _ => false, .send, .send, .dispatch true, .dispatch false]
    s.failed = 0 ∧ s.panics = 1 ∧ s.queued = [⟨false, "e"⟩, ⟨true, "e"⟩] ∧ s.reached = [⟨false, "e"⟩] ∧
      s.queue = [] ∧ s.inflight = 2 := by
  decide

/-- The handlers of all posts are still to be sent, have been queued or are lost and counted as dropped;
`inflight` counts those not dropped whose future has not come to its end. -/
structure State.Accounted (r : Registry σ η) (s : State σ η) : Prop where
  sent : (s.posts.flatMap r.handlers).length = s.pending.length + s.queued.length + s.lost
  dropped : s.dropped = s.lost % 2 ^ 64
  counted : s.inflight + s.reached.length =
    s.pending.length + s.queued.length + s.running.isSome.toNat + s.unwound.toNat
  reached : s.reached <+: s.queued
  order : s.queue = if s.unwound then [] else s.queued.drop s.reached.length

theorem State.Accounted.step (accounted : s.Accounted r) (now : Step) : (Events.step r s now).Accounted r := by
  obtain ⟨sent, dropped, counted, reached, order⟩ := accounted
  have few := reached.length_le
  cases now with
  | post event panics =>
    obtain ⟨n, _, sinks, -⟩ := callSinks_eq event r.sinks panics s
    by_cases busy : s.pending ≠ []
    · rw [Events.step, if_pos busy]
      exact ⟨sent, dropped, counted, reached, order⟩
    · rw [Events.step, if_neg busy]
      simp only [not_not.mp busy, List.length_nil, sinks] at sent counted ⊢
      exact ⟨by grind, dropped, by grind, reached, order⟩
  | send =>
    rcases pending : s.pending with _ | ⟨d, rest⟩
    · simp only [Events.step, pending]
      exact ⟨sent, dropped, counted, reached, order⟩
    · simp only [Events.step, pending]
      split_ifs with full
      · exact ⟨by grind, by rw [dropped, Nat.mod_add_mod], by grind, reached, order⟩
      · exact ⟨by grind, dropped, by grind, reached.trans (List.prefix_append _ _), by grind⟩
  | dispatch panics =>
    rcases running : s.running with _ | d
    · rcases queue : s.queue with _ | ⟨d, rest⟩
      · simp only [Events.step, running, queue]
        exact ⟨sent, dropped, counted, reached, order⟩
      · simp only [Events.step, running, queue]
        obtain ⟨behind, whole⟩ := reached
        have alive : s.unwound = false := by grind
        have front : behind = d :: rest := by grind
        split_ifs
        · exact ⟨sent, dropped, by grind, ⟨rest, by grind⟩, rfl⟩
        · exact ⟨sent, dropped, by grind, ⟨rest, by grind⟩, by simp [alive, ← whole, front]⟩
    · simp only [Events.step, running]
      exact ⟨sent, dropped, by grind, reached, order⟩

theorem State.Accounted.run (accounted : s.Accounted r) (steps : List Step) : (Events.run r s steps).Accounted r := by
  induction steps generalizing s with
  | nil => exact accounted
  | cons now steps ih => exact ih (accounted.step now)

/-- In every run, whatever panics, the handlers are accounted for. So when nothing is in flight,
which is what a drain waits for, every handler queued has been called and none has panicked there. -/
theorem handlers_accounted (r : Registry σ η) (steps : List Step) :
    let s := run r {} steps
    s.Accounted r ∧ (s.inflight = 0 →
      s.pending = [] ∧ s.running = none ∧ s.reached = s.queued ∧ s.unwound = false) := by
  intro s
  have initial : ({} : State σ η).Accounted r := ⟨rfl, rfl, rfl, List.prefix_refl _, rfl⟩
  have accounted : s.Accounted r := initial.run steps
  refine ⟨accounted, fun idle => ?_⟩
  have counted := accounted.counted
  have few := accounted.reached.length_le
  have settled : s.pending.length = 0 ∧ s.running.isSome.toNat = 0 ∧ s.reached.length = s.queued.length ∧
      s.unwound.toNat = 0 := by omega
  exact ⟨List.length_eq_zero_iff.mp settled.1, by simpa using settled.2.1,
    accounted.reached.eq_of_length settled.2.2.1, by simpa using settled.2.2.2⟩

end Spvirit.Events
