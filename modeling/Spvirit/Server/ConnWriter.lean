import Mathlib.Data.List.Perm.Basic
import Mathlib.Data.List.Nodup

/-! The writer of a connection: two lanes of frames, and one elected task at a time that drains both to the socket. -/

namespace Spvirit.Writer

/-- A frame of the control lane, or of the monitor lane with its request id. -/
structure Frame where
  ioid : Option UInt32
  bytes : List UInt8
  deriving DecidableEq, Repr

def bytesOf (frames : List Frame) : List UInt8 := frames.flatMap Frame.bytes

def size : List Frame → Nat
  | [] => 0
  | f :: fs => f.bytes.length + size fs

/-- What an elected task is doing. An inline flusher has a number of batches left to
write, a continuation has no limit. -/
inductive Phase where
  | between (left : Option Nat)
  | writing (left : Option Nat) (batch : List UInt8) (off : Nat)
  | returned

/-- The task is the elected flusher. -/
def Phase.elected : Phase → Bool
  | .between _ | .writing _ _ _ => true
  | .returned => false

def inlineBatchLimit : Nat := 8

structure State where
  control : List Frame
  /-- The latest frame of each request. -/
  monitor : List Frame
  flushing : Bool
  dead : Bool
  backlog : Nat
  tasks : Nat → Option Phase
  /-- The bytes the socket has accepted. -/
  wire : List UInt8
  /-- The frames deposited, and those taken into batches, in order. -/
  deposits : List Frame
  taken : List Frame

inductive Step where
  /-- `send_control` or `send_monitor` up to the release of the lock. -/
  | deposit (k : Nat) (f : Frame)
  /-- The next batch, with the monitor lane in the order the map is drained. -/
  | takeBatch (k : Nat) (order : List Frame)
  /-- The socket accepts some bytes of the batch. -/
  | accept (k n : Nat)
  | wrote (k : Nat)
  /-- The election passes to a spawned continuation. -/
  | handOff (k j : Nat)
  /-- The write fails, accepts nothing or stalls. -/
  | fail (k : Nat)
  /-- There is no runtime to continue on, or the continuation is cancelled once it has been polled. -/
  | giveUp (k : Nat)

namespace State

def initial : State := ⟨[], [], false, false, 0, fun _ => none, [], [], []⟩

variable (s : State)

def setTask (k : Nat) (phase : Phase) : State := { s with tasks := Function.update s.tasks k (some phase) }

def markDead : State := { s with dead := true, flushing := false, control := [], monitor := [], backlog := 0 }

/-- The frame is queued. A newer frame of a request replaces the older one. -/
def queue (f : Frame) : State :=
  match f.ioid with
  | none => { s with backlog := s.backlog + f.bytes.length, control := s.control ++ [f], deposits := s.deposits ++ [f] }
  | some _ =>
    let stale := s.monitor.filter fun g => g.ioid = f.ioid
    { s with
      backlog := s.backlog + f.bytes.length - size stale
      monitor := (s.monitor.filter fun g => ¬ g.ioid = f.ioid) ++ [f]
      deposits := s.deposits ++ [f] }

/-- The depositor that finds no flusher is elected. -/
def deposit (k : Nat) (f : Frame) : State :=
  if s.dead then s.setTask k .returned
  else if s.flushing then (s.queue f).setTask k .returned
  else { s.queue f with flushing := true }.setTask k (.between (some inlineBatchLimit))

/-- Both lanes are drained, the control lane first. With nothing pending the election
is released instead. -/
def takeBatch (k : Nat) (left : Option Nat) (order : List Frame) : State :=
  if s.control = [] ∧ s.monitor = [] then { s with flushing := false }.setTask k .returned
  else
    { s with
      control := []
      monitor := []
      taken := s.taken ++ (s.control ++ order) }.setTask k (.writing left (bytesOf (s.control ++ order)) 0)

def step (s : State) : Step → State
  | .deposit k f => if s.tasks k = none then s.deposit k f else s
  | .takeBatch k order =>
    if order.Perm s.monitor then
      match s.tasks k with
      | some (.between none) => s.takeBatch k none order
      | some (.between (some (n + 1))) => s.takeBatch k (some n) order
      | _ => s
    else s
  | .accept k n =>
    match s.tasks k with
    | some (.writing left batch off) =>
      if 0 < n ∧ off + n ≤ batch.length then
        { s with wire := s.wire ++ (batch.drop off).take n }.setTask k (.writing left batch (off + n))
      else s
    | _ => s
  | .wrote k =>
    match s.tasks k with
    | some (.writing left batch off) =>
      if off = batch.length then { s with backlog := s.backlog - batch.length }.setTask k (.between left) else s
    | _ => s
  | .handOff k j =>
    if s.tasks j = none ∧ j ≠ k then
      match s.tasks k with
      | some (.between (some _)) => (s.setTask k .returned).setTask j (.between none)
      | some (.writing (some _) batch off) => (s.setTask k .returned).setTask j (.writing none batch off)
      | _ => s
    else s
  | .fail k =>
    match s.tasks k with
    | some (.writing _ batch off) => if off < batch.length then s.markDead.setTask k .returned else s
    | _ => s
  | .giveUp k =>
    match s.tasks k with
    | some (.between _) | some (.writing _ _ _) => s.markDead.setTask k .returned
    | _ => s

def run (s : State) (schedule : List Step) : State := schedule.foldl step s

end State

@[simp]
theorem size_singleton (f : Frame) : size [f] = f.bytes.length := by
  simp [size]

theorem size_append (fs gs : List Frame) : size (fs ++ gs) = size fs + size gs := by
  induction fs with
  | nil => simp [size]
  | cons f fs ih =>
    rw [List.cons_append, size, size, ih]
    omega

@[simp]
theorem bytesOf_append (fs gs : List Frame) : bytesOf (fs ++ gs) = bytesOf fs ++ bytesOf gs := by
  simp [bytesOf]

theorem length_bytesOf (fs : List Frame) : (bytesOf fs).length = size fs := by
  induction fs with
  | nil => rfl
  | cons f fs ih =>
    rw [bytesOf] at ih ⊢
    rw [List.flatMap_cons, List.length_append, ih, size]

theorem size_filter_add (p : Frame → Bool) (fs : List Frame) :
    size (fs.filter p) + size (fs.filter fun f => ! p f) = size fs := by
  induction fs with
  | nil => rfl
  | cons f fs ih =>
    by_cases kept : p f = true
    · simp only [List.filter_cons, kept, size, if_true] at ih ⊢
      simp only [Bool.not_true, Bool.false_eq_true, if_false]
      omega
    · simp only [Bool.not_eq_true] at kept
      simp only [List.filter_cons, kept, size, Bool.not_false, Bool.false_eq_true, if_true, if_false] at ih ⊢
      omega

variable {fs : List Frame} {k : Nat} {p : Phase}

theorem size_perm {gs : List Frame} (perm : fs.Perm gs) : size fs = size gs := by
  induction perm with
  | nil => rfl
  | cons f _ ih => rw [size, size, ih]
  | swap f g fs =>
    simp only [size]
    omega
  | trans _ _ ih ih' => rw [ih, ih']

def of (i : Option UInt32) (fs : List Frame) : List Frame := fs.filter fun f => f.ioid = i

@[simp]
theorem of_append (i : Option UInt32) (fs gs : List Frame) : of i (fs ++ gs) = of i fs ++ of i gs := by
  simp [of]

theorem of_eq_self {i : Option UInt32} (all : ∀ f ∈ fs, f.ioid = i) : of i fs = fs :=
  List.filter_eq_self.mpr fun f member => by simpa using all f member

theorem of_eq_nil {i : Option UInt32} (none : ∀ f ∈ fs, f.ioid ≠ i) : of i fs = [] :=
  List.filter_eq_nil_iff.mpr fun f member => by simpa using none f member

/-- With one frame for each request, the order of the lane is no matter to a request. -/
theorem of_perm {i : Option UInt32} {gs : List Frame} (perm : fs.Perm gs) (distinct : (gs.map Frame.ioid).Nodup) :
    of i fs = of i gs := by
  have same : (of i fs).Perm (of i gs) := perm.filter _
  have short : (of i gs).length ≤ 1 := by
    have nodup : ((of i gs).map Frame.ioid).Nodup := distinct.sublist (List.filter_sublist.map _)
    by_contra long
    obtain ⟨a, b, rest, shape⟩ : ∃ a b rest, of i gs = a :: b :: rest := by
      rcases shape : of i gs with _ | ⟨a, _ | ⟨b, rest⟩⟩
      · simp [shape] at long
      · simp [shape] at long
      · exact ⟨a, b, rest, rfl⟩
    have named : ∀ f ∈ of i gs, f.ioid = i := fun f member => by simpa [of] using (List.mem_filter.mp member).2
    rw [shape] at nodup named
    simp [named a (by simp), named b (by simp)] at nodup
  rcases shape : of i gs with _ | ⟨a, _ | ⟨b, rest⟩⟩
  · rw [shape] at same
    exact List.perm_nil.mp same
  · rw [shape] at same
    exact List.perm_singleton.mp same
  · rw [shape] at short
    simp at short

/-- What is left of a task's batch, and the bytes of the whole batch. -/
def Phase.pending : Phase → List UInt8
  | .writing _ batch off => batch.drop off
  | .between _ | .returned => []

def Phase.inFlight : Phase → Nat
  | .writing _ batch _ => batch.length
  | .between _ | .returned => 0

variable {s : State}

/-- There is one flusher at most, and none leaves frames behind. -/
structure State.Elected (s : State) : Prop where
  alive : ∀ k p, s.tasks k = some p → p.elected = true → s.flushing = true ∧ s.dead = false
  one : ∀ j k p q, s.tasks j = some p → s.tasks k = some q → p.elected = true → q.elected = true → j = k
  flusher : s.flushing = true → ∃ k p, s.tasks k = some p ∧ p.elected = true
  drained : s.flushing = false → s.control = [] ∧ s.monitor = []

/-- What is queued, taken and written of what was deposited. -/
structure State.Kept (s : State) : Prop where
  control : ∀ f ∈ s.control, f.ioid = none
  monitor : ∀ f ∈ s.monitor, f.ioid ≠ none
  distinct : (s.monitor.map Frame.ioid).Nodup
  account : ∀ k p, s.tasks k = some p → p.elected = true →
    s.wire ++ p.pending = bytesOf s.taken ∧ s.backlog = size s.control + size s.monitor + p.inFlight
  idle : s.flushing = false → s.backlog = 0 ∧ (s.dead = false → s.wire = bytesOf s.taken)
  cut : s.wire <+: bytesOf s.taken
  order : ∀ i, (of (some i) (s.taken ++ s.monitor)).Sublist (of (some i) s.deposits)
  first : of none (s.taken ++ s.control) <+: of none s.deposits
  all : s.dead = false → of none (s.taken ++ s.control) = of none s.deposits
  last : s.dead = false → ∀ i, (of (some i) (s.taken ++ s.monitor)).getLast? = (of (some i) s.deposits).getLast?

theorem State.Elected.initial : State.initial.Elected := by
  constructor <;> simp [State.initial]

theorem State.Kept.initial : State.initial.Kept := by
  constructor <;> simp [State.initial, of, bytesOf]

/-- A task that is not the flusher comes to its end. -/
theorem State.Elected.returned (elected : s.Elected) {k : Nat} (idle : ∀ p, s.tasks k = some p → p.elected = false) :
    (s.setTask k .returned).Elected := by
  obtain ⟨alive, one, flusher, drained⟩ := elected
  refine ⟨?_, ?_, ?_, drained⟩ <;> unfold State.setTask <;> simp only [Function.update_apply]
  · grind [Phase.elected]
  · grind [Phase.elected]
  · intro flushing
    obtain ⟨j, p, task, lead⟩ := flusher flushing
    refine ⟨j, p, ?_, lead⟩
    have apart : j ≠ k := by grind
    rwa [if_neg apart]

/-- No other task than `k` is the flusher. -/
def Sole (tasks : Nat → Option Phase) (k : Nat) : Prop := ∀ j p, tasks j = some p → p.elected = true → j = k

section

variable {tasks : Nat → Option Phase} {k : Nat} {q : Phase}

/-- What holds of the next phase of the only flusher holds of every flusher then. -/
theorem Sole.each (sole : Sole tasks k) {P : Phase → Prop} (own : q.elected = true → P q) :
    ∀ j p, Function.update tasks k (some q) j = some p → p.elected = true → P p := by
  intro j p found leads
  rw [Function.update_apply] at found
  split_ifs at found with here
  · cases found
    exact own leads
  · exact absurd (sole j p found leads) here

theorem Sole.update (sole : Sole tasks k) : Sole (Function.update tasks k (some q)) k := by
  intro j p found leads
  by_contra apart
  rw [Function.update_of_ne apart] at found
  exact apart (sole j p found leads)

theorem Sole.handOff (sole : Sole tasks k) {j : Nat} :
    Sole (Function.update (Function.update tasks k (some .returned)) j (some q)) j := by
  intro i p found leads
  by_contra apart
  rw [Function.update_of_ne apart] at found
  exact sole.each (P := fun _ => False) (fun returned => by cases returned) i p found leads

end

theorem elected_of_sole (sole : Sole s.tasks k) (task : s.tasks k = some p)
    (lead : p.elected = s.flushing) (alive : s.flushing = true → s.dead = false)
    (drained : s.flushing = false → s.control = [] ∧ s.monitor = []) : s.Elected := by
  refine ⟨fun j q found leads => ?_, fun i j p q found found' leads leads' => ?_, fun flushing => ?_, drained⟩
  · cases sole j q found leads
    cases task.symm.trans found
    have flushing := lead.symm.trans leads
    exact ⟨flushing, alive flushing⟩
  · exact (sole i p found leads).trans (sole j q found' leads').symm
  · exact ⟨k, p, task, lead.trans flushing⟩

theorem elected_leads (sole : Sole s.tasks k) (task : s.tasks k = some p) (lead : p.elected = true)
    (alive : s.flushing = true ∧ s.dead = false) : s.Elected :=
  elected_of_sole sole task (lead.trans alive.1.symm) (fun _ => alive.2) fun idle => by cases alive.1.symm.trans idle

theorem State.Kept.setTask (kept : s.Kept) (own : p.elected = true →
    s.wire ++ p.pending = bytesOf s.taken ∧ s.backlog = size s.control + size s.monitor + p.inFlight) :
    (s.setTask k p).Kept := by
  obtain ⟨control, monitor, distinct, account, idle, cut, order, first, all, last⟩ := kept
  refine ⟨control, monitor, distinct, ?_, idle, cut, order, first, all, last⟩
  intro j q found leads
  change Function.update s.tasks k (some p) j = some q at found
  rw [Function.update_apply] at found
  split_ifs at found
  · cases found
    exact own leads
  · exact account j q found leads

theorem queue_frame (f : Frame) :
    (s.queue f).flushing = s.flushing ∧ (s.queue f).dead = s.dead ∧ (s.queue f).tasks = s.tasks ∧
      (s.queue f).wire = s.wire ∧ (s.queue f).taken = s.taken ∧ (s.queue f).deposits = s.deposits ++ [f] := by
  unfold State.queue
  split <;> exact ⟨rfl, rfl, rfl, rfl, rfl, rfl⟩

theorem of_singleton (i : Option UInt32) (f : Frame) : of i [f] = if f.ioid = i then [f] else [] := by
  by_cases same : f.ioid = i
  · rw [if_pos same]
    exact of_eq_self (by simpa using same)
  · rw [if_neg same]
    exact of_eq_nil (by simpa using same)

theorem of_replaced (i : Option UInt32) (f : Frame) (fs : List Frame) :
    of i ((fs.filter fun g => ¬ g.ioid = f.ioid) ++ [f]) = if f.ioid = i then [f] else of i fs := by
  rw [of_append, of_singleton]
  split_ifs with same
  · rw [of_eq_nil, List.nil_append]
    intro g member
    simpa [same] using (List.mem_filter.mp member).2
  · rw [List.append_nil]
    unfold of
    rw [List.filter_filter]
    refine List.filter_congr fun g _ => ?_
    by_cases mine : g.ioid = i
    · simp [mine, Ne.symm same]
    · simp [mine]

theorem distinct_replaced {f : Frame} (distinct : (fs.map Frame.ioid).Nodup) :
    (((fs.filter fun g => ¬ g.ioid = f.ioid) ++ [f]).map Frame.ioid).Nodup := by
  rw [List.map_append, List.nodup_append']
  refine ⟨distinct.sublist (List.filter_sublist.map _), List.nodup_singleton _, ?_⟩
  rw [List.map_singleton, List.disjoint_singleton]
  intro member
  obtain ⟨g, kept, same⟩ := List.mem_map.mp member
  simp [same] at kept

section

variable (kept : s.Kept)

include kept

theorem State.Kept.queueControl (alive : s.dead = false) {f : Frame} (lane : f.ioid = none) : ({ s with
      backlog := s.backlog + f.bytes.length
      control := s.control ++ [f]
      deposits := s.deposits ++ [f]
      flushing := true } : State).Kept := by
  obtain ⟨control, monitor, distinct, account, idle, cut, order, first, all, last⟩ := kept
  have whole : of none (s.taken ++ (s.control ++ [f])) = of none (s.deposits ++ [f]) := by
    rw [← List.append_assoc, of_append, of_append none s.deposits, all alive]
  have other : ∀ i, of (some i) (s.deposits ++ [f]) = of (some i) s.deposits := fun i => by
    rw [of_append, of_singleton, if_neg (by simp [lane]), List.append_nil]
  refine ⟨fun g member => ?_, monitor, distinct, fun k p task lead => ?_, (fun idle => by cases idle), cut, fun i => ?_,
    ?_, fun _ => whole, fun alive i => ?_⟩
  · rcases List.mem_append.mp member with before | new
    · exact control g before
    · rw [List.mem_singleton.mp new]
      exact lane
  · obtain ⟨written, counted⟩ := account k p task lead
    refine ⟨written, ?_⟩
    simp only [size_append, size_singleton]
    omega
  · rw [other]
    exact order i
  · exact ⟨[], by rw [List.append_nil, whole]⟩
  · rw [other]
    exact last alive i

/-- A monitor frame takes the place of an older one of its request. -/
theorem State.Kept.queueMonitor (alive : s.dead = false) {f : Frame} (lane : f.ioid ≠ none) : ({ s with
      backlog := s.backlog + f.bytes.length - size (s.monitor.filter fun g => g.ioid = f.ioid)
      monitor := (s.monitor.filter fun g => ¬ g.ioid = f.ioid) ++ [f]
      deposits := s.deposits ++ [f]
      flushing := true } : State).Kept := by
  obtain ⟨control, monitor, distinct, account, idle, cut, order, first, all, last⟩ := kept
  have other : of none (s.deposits ++ [f]) = of none s.deposits := by
    rw [of_append, of_singleton, if_neg lane, List.append_nil]
  refine ⟨control, fun g member => ?_, distinct_replaced distinct, fun k p task lead => ?_, (fun idle => by cases idle), cut,
    fun i => ?_, ?_, fun _ => ?_, fun _ i => ?_⟩
  · rcases List.mem_append.mp member with before | new
    · exact monitor g (List.mem_of_mem_filter before)
    · rw [List.mem_singleton.mp new]
      exact lane
  · obtain ⟨written, counted⟩ := account k p task lead
    refine ⟨written, ?_⟩
    have split := size_filter_add (fun g => g.ioid = f.ioid) s.monitor
    simp only [← decide_not] at split
    simp only [size_append, size_singleton]
    omega
  · rw [of_append, of_replaced, of_append _ s.deposits, of_singleton]
    have before := order i
    rw [of_append] at before
    split_ifs
    · exact ((List.sublist_append_left _ _).trans before).append (List.Sublist.refl _)
    · rwa [List.append_nil]
  · rw [other]
    exact first
  · rw [other]
    exact all alive
  · rw [of_append, of_replaced, of_append _ s.deposits, of_singleton]
    split_ifs
    · rw [List.getLast?_concat, List.getLast?_concat]
    · have before := last alive i
      rw [of_append] at before
      rw [List.append_nil]
      exact before

theorem State.Kept.queue (alive : s.dead = false) (f : Frame) : ({ s.queue f with flushing := true } : State).Kept := by
  unfold State.queue
  cases lane : f.ioid with
  | none => exact kept.queueControl alive lane
  | some i =>
    have monitor := kept.queueMonitor alive (f := f) (by simp [lane])
    rwa [lane] at monitor

section

variable {k : Nat} (sole : Sole s.tasks k)

include sole

theorem State.Kept.takeBatch {left left' : Option Nat} {order : List Frame}
    (task : s.tasks k = some (.between left)) (perm : order.Perm s.monitor) (flushing : s.flushing = true) :
    ({ s with
      control := []
      monitor := []
      taken := s.taken ++ (s.control ++ order) }.setTask k
        (.writing left' (bytesOf (s.control ++ order)) 0)).Kept := by
  obtain ⟨control, monitor, distinct, account, idle, cut, sub, first, all, last⟩ := kept
  obtain ⟨written, counted⟩ := account k _ task rfl
  have written : s.wire = bytesOf s.taken := by rwa [Phase.pending, List.append_nil] at written
  have anyOrder : ∀ f ∈ order, f.ioid ≠ none := fun f member => monitor f (perm.mem_iff.mp member)
  have controls : of none (s.taken ++ (s.control ++ order) ++ []) = of none (s.taken ++ s.control) := by
    rw [List.append_nil, ← List.append_assoc, of_append none _ order, of_eq_nil anyOrder, List.append_nil]
  have monitors : ∀ i, of (some i) (s.taken ++ (s.control ++ order) ++ []) = of (some i) (s.taken ++ s.monitor) := fun i => by
    have none : of (some i) s.control = [] := of_eq_nil fun f member => by simp [control f member]
    rw [List.append_nil, of_append, of_append _ s.control, none, List.nil_append, of_perm perm distinct, ← of_append]
  refine ⟨List.forall_mem_nil _, List.forall_mem_nil _, List.nodup_nil, sole.each fun _ => ⟨?_, ?_⟩,
    fun idle => (by cases flushing.symm.trans idle), ?_, fun i => monitors i ▸ sub i, controls ▸ first,
    fun alive => controls.trans (all alive), fun alive i => monitors i ▸ last alive i⟩
  · simp only [Phase.pending, List.drop_zero, State.setTask, written, bytesOf_append]
  · simp only [Phase.inFlight, length_bytesOf, size_append, size_perm perm, State.setTask, size] at counted ⊢
    omega
  · exact written ▸ bytesOf_append _ _ ▸ List.prefix_append _ _

theorem State.Kept.accept {n off : Nat} {left : Option Nat} {batch : List UInt8}
    (task : s.tasks k = some (.writing left batch off)) (flushing : s.flushing = true) :
    ({ s with wire := s.wire ++ (batch.drop off).take n }.setTask k (.writing left batch (off + n))).Kept := by
  obtain ⟨written, counted⟩ := kept.account k _ task rfl
  have later : (s.wire ++ (batch.drop off).take n) ++ batch.drop (off + n) = bytesOf s.taken := by
    rw [List.append_assoc, ← List.drop_drop, List.take_append_drop]
    exact written
  exact { kept with
    account := sole.each fun _ => ⟨later, counted⟩
    idle := fun idle => by cases flushing.symm.trans idle
    cut := ⟨_, later⟩ }

theorem State.Kept.wrote {left : Option Nat} {batch : List UInt8}
    (task : s.tasks k = some (.writing left batch batch.length)) (flushing : s.flushing = true) :
    ({ s with backlog := s.backlog - batch.length }.setTask k (.between left)).Kept := by
  obtain ⟨written, counted⟩ := kept.account k _ task rfl
  simp only [Phase.pending, List.drop_length] at written
  simp only [Phase.inFlight] at counted
  exact { kept with
    account := sole.each fun _ => ⟨written, by simp only [State.setTask, Phase.inFlight]; omega⟩
    idle := fun idle => by cases flushing.symm.trans idle }

theorem State.Kept.markDead : (s.markDead.setTask k .returned).Kept := by
  refine ⟨List.forall_mem_nil _, List.forall_mem_nil _, List.nodup_nil, sole.each fun leads => (by cases leads),
    fun _ => ⟨rfl, fun alive => by cases alive⟩, kept.cut, fun i => ?_, ?_, fun alive => (by cases alive),
    fun alive => by cases alive⟩
  · refine List.Sublist.trans ?_ (kept.order i)
    rw [of_append, of_append]
    exact List.Sublist.append_left (List.nil_sublist _) _
  · refine List.IsPrefix.trans ?_ kept.first
    rw [of_append, of_append]
    exact (List.prefix_append_right_inj _).mpr List.nil_prefix

end

end

theorem State.Kept.releases (kept : s.Kept) {left : Option Nat} (task : s.tasks k = some (.between left))
    (control : s.control = []) (monitor : s.monitor = []) : ({ s with flushing := false }.setTask k .returned).Kept := by
  obtain ⟨written, counted⟩ := kept.account k _ task rfl
  rw [Phase.pending, List.append_nil] at written
  have none : s.backlog = 0 := by
    rw [counted, control, monitor]
    rfl
  have idle : ({ s with flushing := false } : State).Kept := { kept with idle := fun _ => ⟨none, fun _ => written⟩ }
  exact idle.setTask fun leads => by cases leads

/-- What holds of the writer. -/
structure State.Sound (s : State) : Prop where
  elected : s.Elected
  kept : s.Kept

theorem State.Sound.sole (sound : s.Sound) (task : s.tasks k = some p) (lead : p.elected = true) :
    Sole s.tasks k := fun j q found leads => sound.elected.one j k q p found task leads lead

theorem State.Sound.deposit (sound : s.Sound) (new : s.tasks k = none) (f : Frame) :
    (s.deposit k f).Sound := by
  have frame := @queue_frame s f
  unfold State.deposit
  split_ifs with dead flushing
  · exact ⟨sound.elected.returned (by simp [new]), sound.kept.setTask fun leads => by cases leads⟩
  · have alive : s.dead = false := by simpa using dead
    have queued := sound.kept.queue alive f
    have same : ({ s.queue f with flushing := true } : State) = s.queue f := by
      rw [← show (s.queue f).flushing = true from frame.1.trans flushing]
    rw [same] at queued
    have elected : (s.queue f).Elected := by
      obtain ⟨flush, die, tasks, _, _, _⟩ := frame
      refine ⟨?_, ?_, ?_, ?_⟩
      · rw [flush, die, tasks]
        exact sound.elected.alive
      · rw [tasks]
        exact sound.elected.one
      · rw [flush, tasks]
        exact sound.elected.flusher
      · rw [flush, flushing]
        intro idle
        cases idle
    exact ⟨elected.returned (by simp [frame.2.2.1, new]), queued.setTask fun leads => by cases leads⟩
  · have alive : s.dead = false := by simpa using dead
    have idle : s.flushing = false := by simpa using flushing
    obtain ⟨control, monitor⟩ := sound.elected.drained idle
    obtain ⟨counted, written⟩ := sound.kept.idle idle
    obtain ⟨_, die, tasks, wire, taken, _⟩ := frame
    constructor
    · have sole : Sole (s.queue f).tasks k := by
        rw [tasks]
        intro j q task lead
        cases idle.symm.trans (sound.elected.alive j q task lead).1
      exact elected_leads sole.update (Function.update_self _ _ _) rfl ⟨rfl, die.trans alive⟩
    · refine (sound.kept.queue alive f).setTask fun _ => ⟨?_, ?_⟩
      · dsimp only
        rw [wire, taken, Phase.pending, List.append_nil]
        exact written alive
      · unfold State.queue
        rw [control, monitor, counted]
        split <;> simp [size, Phase.inFlight]

theorem State.Sound.takeBatch (sound : s.Sound) {left left' : Option Nat} {order : List Frame}
    (task : s.tasks k = some (.between left)) (perm : order.Perm s.monitor) : (s.takeBatch k left' order).Sound := by
  have alive := sound.elected.alive k _ task rfl
  have sole := sound.sole task rfl
  unfold State.takeBatch
  split_ifs with empty
  · refine ⟨elected_of_sole sole.update (Function.update_self _ _ _) rfl (fun flushing => by cases flushing) fun _ => empty, ?_⟩
    exact sound.kept.releases task empty.1 empty.2
  · exact ⟨elected_leads sole.update (Function.update_self _ _ _) rfl alive, sound.kept.takeBatch sole task perm alive.1⟩

theorem State.Sound.markDead (sound : s.Sound) (task : s.tasks k = some p) (lead : p.elected = true) :
    (s.markDead.setTask k .returned).Sound :=
  ⟨elected_of_sole (sound.sole task lead).update (Function.update_self _ _ _) rfl (fun flushing => by cases flushing)
    fun _ => ⟨rfl, rfl⟩, sound.kept.markDead (sound.sole task lead)⟩

theorem State.Sound.handOff (sound : s.Sound) {j : Nat} {q : Phase} (task : s.tasks k = some p)
    (lead : p.elected = true) (leads : q.elected = true) (same : q.pending = p.pending ∧ q.inFlight = p.inFlight) :
    ((s.setTask k .returned).setTask j q).Sound := by
  refine ⟨elected_leads (sound.sole task lead).handOff (Function.update_self _ _ _) leads (sound.elected.alive k p task lead),
    (sound.kept.setTask fun returned => by cases returned).setTask fun _ => ?_⟩
  rw [same.1, same.2]
  exact sound.kept.account k p task lead

theorem State.Sound.step (sound : s.Sound) (move : Step) : (s.step move).Sound := by
  cases move with
  | deposit k f =>
    rw [State.step]
    split_ifs with new
    · exact sound.deposit new f
    · exact sound
  | takeBatch k order =>
    rw [State.step]
    split_ifs with perm
    · split
      next task => exact sound.takeBatch task perm
      next task => exact sound.takeBatch task perm
      next => exact sound
    · exact sound
  | accept k n =>
    rw [State.step]
    split
    next left batch off task =>
      have alive := sound.elected.alive k _ task rfl
      have sole := sound.sole task rfl
      split_ifs
      · exact ⟨elected_leads sole.update (Function.update_self _ _ _) rfl alive, sound.kept.accept sole task alive.1⟩
      · exact sound
    next => exact sound
  | wrote k =>
    rw [State.step]
    split
    next left batch off task =>
      have alive := sound.elected.alive k _ task rfl
      have sole := sound.sole task rfl
      split_ifs with whole
      · subst whole
        exact ⟨elected_leads sole.update (Function.update_self _ _ _) rfl alive, sound.kept.wrote sole task alive.1⟩
      · exact sound
    next => exact sound
  | handOff k j =>
    rw [State.step]
    split_ifs
    · split
      next task => exact sound.handOff task rfl rfl ⟨rfl, rfl⟩
      next task => exact sound.handOff task rfl rfl ⟨rfl, rfl⟩
      next => exact sound
    · exact sound
  | fail k =>
    rw [State.step]
    split
    next task =>
      split_ifs
      · exact sound.markDead task rfl
      · exact sound
    next => exact sound
  | giveUp k =>
    rw [State.step]
    split
    next task => exact sound.markDead task rfl
    next task => exact sound.markDead task rfl
    next => exact sound

theorem State.Sound.run (sound : s.Sound) (schedule : List Step) : (s.run schedule).Sound := by
  induction schedule generalizing s with
  | nil => exact sound
  | cons move schedule ih => exact ih (sound.step move)

theorem prefix_bytesOf {bytes : List UInt8} (part : bytes <+: bytesOf fs) :
    ∃ frames cut, bytes = bytesOf frames ++ cut ∧ frames <+: fs ∧
      (cut = [] ∨ ∃ f, frames ++ [f] <+: fs ∧ cut <+: f.bytes) := by
  induction fs generalizing bytes with
  | nil => exact ⟨[], bytes, rfl, List.nil_prefix, Or.inl (List.prefix_nil.mp part)⟩
  | cons f fs ih =>
    have part : bytes <+: f.bytes ++ bytesOf fs := part
    by_cases short : bytes.length ≤ f.bytes.length
    · refine ⟨[], bytes, rfl, List.nil_prefix, Or.inr ⟨f, ?_, ?_⟩⟩
      · exact (List.prefix_cons_inj f).mpr List.nil_prefix
      · exact List.prefix_of_prefix_length_le part (List.prefix_append _ _) short
    · obtain ⟨rest, rfl⟩ := List.prefix_of_prefix_length_le (List.prefix_append f.bytes (bytesOf fs)) part (by omega)
      obtain ⟨frames, cut, rfl, inside, last⟩ := ih ((List.prefix_append_right_inj _).mp part)
      refine ⟨f :: frames, cut, (List.append_assoc _ _ _).symm, (List.prefix_cons_inj f).mpr inside, ?_⟩
      rcases last with none | ⟨g, next, cutOff⟩
      · exact Or.inl none
      · exact Or.inr ⟨g, (List.prefix_cons_inj f).mpr next, cutOff⟩

def State.AtRest (s : State) : Prop := ∀ k p, s.tasks k = some p → p.elected = false

theorem State.Sound.flushing (sound : s.Sound) (rest : s.AtRest) : s.flushing = false := by
  by_contra flushing
  obtain ⟨k, p, task, lead⟩ := sound.elected.flusher (by simpa using flushing)
  rw [rest k p task] at lead
  cases lead

theorem State.Sound.ordered (sound : s.Sound) {frames : List Frame} (inside : frames <+: s.taken) :
    of none frames <+: of none s.deposits ∧ ∀ i, (of (some i) frames).Sublist (of (some i) s.deposits) := by
  constructor
  · refine List.IsPrefix.trans ?_ sound.kept.first
    rw [of_append]
    exact (inside.filter _).trans (List.prefix_append _ _)
  · intro i
    refine List.Sublist.trans ?_ (sound.kept.order i)
    rw [of_append]
    exact (inside.filter _).sublist.trans (List.sublist_append_left _ _)

/-- At rest all that was deposited has been written, but for the monitor frames that
were replaced. -/
theorem State.Sound.settled (sound : s.Sound) (rest : s.AtRest) (alive : s.dead = false) :
    s.wire = bytesOf s.taken ∧ of none s.taken = of none s.deposits ∧
      ∀ i, (of (some i) s.taken).getLast? = (of (some i) s.deposits).getLast? := by
  have idle := sound.flushing rest
  obtain ⟨control, monitor⟩ := sound.elected.drained idle
  have all := sound.kept.all alive
  have last := sound.kept.last alive
  rw [control, List.append_nil] at all
  rw [monitor, List.append_nil] at last
  exact ⟨(sound.kept.idle idle).2 alive, all, last⟩

/-- Whatever the interleaving and the socket: there is at most one flusher, and without
one the lanes of a live connection are empty. The bytes written are whole frames with one
cut at the end at most, control frames in the order of their deposit and those of each
monitor a part of its deposits in order. At rest nothing is cut on a live connection, no
control frame is missing and each monitor's last frame is written. What the flusher has
not written of its batch completes the frames, and the backlog counts what is queued and
the batch. -/
theorem writer_keeps_frames (schedule : List Step) :
    let s := State.initial.run schedule
    (∀ j k p q, s.tasks j = some p → s.tasks k = some q → p.elected = true → q.elected = true → j = k) ∧
    (s.dead = false → s.AtRest → s.control = [] ∧ s.monitor = []) ∧
    (∃ frames cut, s.wire = bytesOf frames ++ cut ∧
      (cut = [] ∨ ∃ f, frames ++ [f] <+: s.taken ∧ cut <+: f.bytes) ∧
      of none frames <+: of none s.deposits ∧ (∀ i, (of (some i) frames).Sublist (of (some i) s.deposits)) ∧
      (s.dead = false → s.AtRest → cut = [] ∧ of none frames = of none s.deposits ∧
        ∀ i, (of (some i) frames).getLast? = (of (some i) s.deposits).getLast?)) ∧
    (∀ k p, s.tasks k = some p → p.elected = true →
      s.wire ++ p.pending = bytesOf s.taken ∧ s.backlog = size s.control + size s.monitor + p.inFlight) ∧
    (s.AtRest → s.backlog = 0) := by
  intro s
  have sound : s.Sound := State.Sound.run ⟨.initial, .initial⟩ schedule
  refine ⟨sound.elected.one, fun _ rest => sound.elected.drained (sound.flushing rest), ?_, sound.kept.account,
    fun rest => (sound.kept.idle (sound.flushing rest)).1⟩
  by_cases settled : s.dead = false ∧ s.AtRest
  · obtain ⟨written, all, last⟩ := sound.settled settled.2 settled.1
    obtain ⟨controls, monitors⟩ := sound.ordered (List.prefix_refl s.taken)
    exact ⟨s.taken, [], by rw [written, List.append_nil], Or.inl rfl, controls, monitors, fun _ _ => ⟨rfl, all, last⟩⟩
  · obtain ⟨frames, cut, written, inside, last⟩ := prefix_bytesOf sound.kept.cut
    obtain ⟨controls, monitors⟩ := sound.ordered inside
    exact ⟨frames, cut, written, last, controls, monitors, fun alive rest => absurd ⟨alive, rest⟩ settled⟩

end Spvirit.Writer
