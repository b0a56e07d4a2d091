import Spvirit.Client.CacheSlots

/-! What the entries of the resolution cache hold, and what its calls may return. -/

namespace Spvirit.Client.Cache

variable {ν ρ : Type} {s : State ν ρ} {ttl : Option Nat}

/-- The call has the slot's guard. -/
def Phase.Guards : Phase ρ → Prop
  | .locked | .loaded _ | .resolving _ => True
  | _ => False

/-- Nothing has been returned yet. -/
def Phase.Open : Phase ρ → Prop
  | .answered _ _ _ | .ended => False
  | _ => True

/-- The call has not yet looked at the entry. -/
def Phase.Early : Phase ρ → Prop
  | .waiting | .locked | .loaded _ => True
  | _ => False

/-- What the entries hold, and what the calls know of them. -/
@[grind cases]
structure State.Served (ttl : Option Nat) (s : State ν ρ) : Prop where
  locked : ∀ k i, (s.phase k).Guards → s.slot k = some i → s.lock i = some k
  direct : ∀ k g, s.phase k = .resolving g → s.slot k = none → ttl = none
  noted : ∀ n, s.lastInvalidate n ≤ s.moment
  counted : ∀ i, s.generation i ≤ s.moment
  asked : ∀ k n, s.asked k = some n → s.since k ≤ s.lastInvalidate n
  older : ∀ i e, s.entry i = some e → e.generation ≤ s.generation i
  read : ∀ k i g, s.phase k = .loaded g ∨ s.phase k = .resolving g → s.slot k = some i → g ≤ s.generation i
  opened : ∀ k, (s.phase k).Open → s.outcome k = none
  source : ∀ i e n, s.entry i = some e → s.nameOf i = some n →
    s.asked e.origin = some n ∧ s.outcome e.origin = some e.resolved
  /-- An entry of the slot's generation is from after the last `invalidate`. -/
  current : ∀ i e n, s.entry i = some e → (n, i) ∈ s.map → e.generation = s.generation i →
    s.lastInvalidate n < s.beganAt e.origin
  unfilled : ∀ k i, s.slot k = some i → maxSlots ≤ s.crowd i → (s.phase k).Early → s.entry i = none
  matching : ∀ k i g e, s.phase k = .loaded g → s.slot k = some i → s.entry i = some e → e.generation = g →
    s.since k < s.beganAt e.origin
  later : ∀ k g, s.phase k = .resolving g → s.since k < s.beganAt k
  pending : ∀ k i g n, s.phase k = .resolving g → s.slot k = some i → (n, i) ∈ s.map → g = s.generation i →
    s.lastInvalidate n < s.beganAt k
  served : ∀ k o age v, s.phase k = .answered o age v →
    s.asked o = s.asked k ∧ s.outcome o = some v ∧ s.since k < s.beganAt o ∧
      ∀ a, age = some a → ∃ t, ttl = some t ∧ a < t

namespace State.Served

theorem initial (ttl : Option Nat) : (State.initial : State ν ρ).Served ttl := by
  constructor <;> simp [State.initial, Phase.Guards]

section

variable (served : s.Served ttl)

include served

theorem prune (limit : Nat) : (s.prune limit).Served ttl := by
  obtain ⟨map, nextPrune, lastPruneAtCap, same, sub, -⟩ := prune_spec s limit
  rw [same]
  refine { served with current := ?_, pending := ?_ }
  · exact fun i e n found member => served.current i e n found (sub.subset member)
  · exact fun k i g n resolving mine member => served.pending k i g n resolving mine (sub.subset member)

variable {i k g : Nat}

theorem hold (waits : s.phase k = .waiting)
    (empty : maxSlots ≤ s.crowd i → s.entry i = none) : (s.hold k i).Served ttl := by
  unfold State.hold
  refine { served with locked := ?_, direct := ?_, read := ?_, unfilled := ?_, matching := ?_, pending := ?_ }
  all_goals
    simp only [Function.update_apply]
    grind [Phase.Guards]

theorem insert (kept : s.Kept) (name : ν) : (s.insert name).Served ttl := by
  have unmade := kept.fresh s.next (Nat.le_refl _)
  have unheld : ∀ k, s.slot k ≠ some s.next := by
    intro k holds
    obtain ⟨n, _, named⟩ := kept.owns k s.next holds
    rw [unmade] at named
    cases named
  have member : ∀ n i, (n, i) ∈ (s.insert name).map → (n, i) ∈ s.map ∨ i = s.next := by
    intro n i
    unfold State.insert
    dsimp only
    split_ifs <;> grind
  refine ⟨?_, served.direct, served.noted, ?_, served.asked, ?_, ?_, served.opened, ?_, ?current, ?_, ?_, served.later,
    ?pending, served.served⟩
  case current =>
    intro i e n found inside
    have old := member n i inside
    clear inside member
    unfold State.insert at found ⊢
    grind [Function.update_apply]
  case pending =>
    intro k i g n resolving mine inside
    have old := member n i inside
    clear inside member
    unfold State.insert at resolving mine ⊢
    grind [Function.update_apply]
  all_goals
    unfold State.insert
    grind [Function.update_apply]

/-- `resolve` begins now, and every `invalidate` so far is before it. -/
theorem begin (kept : s.Kept)
    (early : ∀ n, s.lastInvalidate n < s.moment) (first : s.outcome k = none) (since : s.since k < s.moment)
    (bare : s.slot k = none → ttl = none)
    (guards : ∀ i, s.slot k = some i → s.lock i = some k ∧ g ≤ s.generation i) : (s.begin k g).Served ttl := by
  have owns := kept.owns
  unfold State.begin State.setPhase
  refine ⟨?_, ?_, served.noted, served.counted, served.asked, served.older, ?_, ?_, served.source, ?_, ?_, ?_, ?_, ?_, ?_⟩
  all_goals
    simp only [Function.update_apply]
    grind [Phase.Early]

/-- The guard is dropped by the one call that has it. -/
theorem unlock {phase : Phase ρ} (guards : (s.phase k).Guards)
    (quiet : phase = .failed ∨ phase = .ended ∨ ∃ o age v, phase = .answered o age v)
    (opens : phase.Open → s.outcome k = none)
    (answer : ∀ o age v, phase = .answered o age v → s.asked o = s.asked k ∧ s.outcome o = some v ∧
      s.since k < s.beganAt o ∧ ∀ a, age = some a → ∃ t, ttl = some t ∧ a < t) :
    ((s.unlock k).setPhase k phase).Served ttl := by
  unfold State.unlock State.setPhase
  split
  all_goals
    rename_i mine
    refine ⟨?_, ?_, served.noted, served.counted, served.asked, served.older, ?_, ?_, served.source, served.current, ?_, ?_, ?_, ?_, ?_⟩
    all_goals
      simp only [Function.update_apply]
      grind [Phase.Early, Phase.Guards]

/-- The entry is written by the call whose `resolve` has returned it. Its own generation
is the one it has read before. -/
theorem store (kept : s.Kept) (value : ρ)
    (resolving : s.phase k = .resolving g) (mine : s.slot k = some i) :
    (State.Served ttl { s with
      outcome := Function.update s.outcome k (some value)
      entry := Function.update s.entry i (some ⟨value, s.clock, g, k⟩)
      phase := Function.update s.phase k (.answered k none value)
      lock := Function.update s.lock i none }) := by
  obtain ⟨n, asks, named⟩ := kept.owns k i mine
  have solo := kept.solo
  have holds := served.locked k i (by rw [resolving]; trivial) mine
  have fresh := served.opened k (by rw [resolving]; trivial)
  refine ⟨?_, ?_, served.noted, served.counted, served.asked, ?_, ?_, ?_, ?_, ?_, ?_, ?_, ?_, ?_, ?_⟩
  all_goals
    simp only [Function.update_apply]
    grind [Phase.Early, Phase.Guards, Phase.Open]

theorem ask (kept : s.Kept) (idle : s.phase k = .idle) (name : ν) :
    (s.ask k name).Served ttl := by
  have free := kept.begun k idle
  have fresh := served.opened k (by rw [idle]; trivial)
  unfold State.ask
  refine { served with asked := ?_, source := ?_, matching := ?_, later := ?_, served := ?_ }
  all_goals
    simp only [Function.update_apply]
    grind

/-- A call that has nothing to guard and has answered nothing goes on. -/
theorem setPhase {phase : Phase ρ}
    (plain : phase = .waiting ∧ s.slot k = none ∨ phase = .ended) (first : phase.Open → s.outcome k = none) :
    (s.setPhase k phase).Served ttl := by
  unfold State.setPhase
  refine ⟨?_, ?_, served.noted, served.counted, served.asked, served.older, ?_, ?_,
    served.source, served.current, ?_, ?_, ?_, ?_, ?_⟩
  all_goals
    simp only [Function.update_apply]
    grind [Phase.Early, Phase.Guards]

theorem lock (waits : s.phase k = .waiting)
    (mine : s.slot k = some i) (free : s.lock i = none) :
    ({ s with lock := Function.update s.lock i (some k) }.setPhase k .locked).Served ttl := by
  have fresh := served.opened k (by rw [waits]; trivial)
  have empty := served.unfilled k i mine
  unfold State.setPhase
  refine ⟨?_, ?_, served.noted, served.counted, served.asked, served.older, ?_, ?_,
    served.source, served.current, ?_, ?_, ?_, ?_, ?_⟩
  all_goals
    simp only [Function.update_apply]
    grind [Phase.Early]

theorem load (kept : s.Kept) (holds : s.phase k = .locked)
    (mine : s.slot k = some i) : (s.setPhase k (.loaded (s.generation i))).Served ttl := by
  have fresh := served.opened k (by rw [holds]; trivial)
  have guarded := served.locked k i (by rw [holds]; trivial) mine
  have empty := served.unfilled k i mine
  obtain ⟨n, asks, named⟩ := kept.owns k i mine
  have stored := kept.keeps k i n mine asks
  have early := served.asked k n asks
  -- An entry of the generation read is from after every `invalidate` the call knows of.
  have now : ∀ e, s.entry i = some e → e.generation = s.generation i → s.since k < s.beganAt e.origin := by
    intro e found same
    rcases Nat.lt_or_ge (s.crowd i) maxSlots with room | full
    · have recent := served.current i e n found (stored room) same
      omega
    · rw [empty full (by rw [holds]; trivial)] at found
      cases found
  unfold State.setPhase
  refine ⟨?_, ?_, served.noted, served.counted, served.asked, served.older, ?_, ?_,
    served.source, served.current, ?_, ?_, ?_, ?_, ?_⟩
  all_goals
    simp only [Function.update_apply]
    grind [Phase.Early]

theorem look (kept : s.Kept) (early : ∀ n, s.lastInvalidate n < s.moment)
    (loaded : s.phase k = .loaded g) : (s.look ttl k g).Served ttl := by
  have guards : (s.phase k).Guards := by rw [loaded]; trivial
  have fresh := served.opened k (by rw [loaded]; trivial)
  unfold State.look
  split
  · rename_i i limit mine
    obtain ⟨n, asks, named⟩ := kept.owns k i mine
    have begins : (s.begin k g).Served (some limit) := by
      refine served.begin kept early fresh ?_ (fun free => ?_) fun j same => ?_
      · exact Nat.lt_of_le_of_lt (served.asked k n asks) (early n)
      · exact absurd (mine.symm.trans free) (by simp)
      · exact ⟨served.locked k j guards same, served.read k j g (Or.inl loaded) same⟩
    split
    · rename_i e found
      split_ifs with hit
      · obtain ⟨asked, produced⟩ := served.source i e n found named
        refine served.unlock guards (Or.inr (Or.inr ⟨_, _, _, rfl⟩)) (fun opens => opens.elim) ?_
        rintro o age v ⟨rfl, rfl, rfl⟩
        refine ⟨asked.trans asks.symm, produced, served.matching k i g e loaded mine found hit.1, ?_⟩
        rintro a ⟨rfl⟩
        exact ⟨limit, rfl, hit.2⟩
      · exact begins
    · exact begins
  · exact served

theorem succeed (kept : s.Kept) (value : ρ)
    (resolving : s.phase k = .resolving g) : (s.succeed k g value).Served ttl := by
  unfold State.succeed
  dsimp only
  split
  · rename_i i mine
    have stored := served.store kept value resolving mine
    simpa only [State.unlock, State.setPhase, mine] using stored
  · rename_i bare
    have fresh := served.opened k (by rw [resolving]; trivial)
    unfold State.setPhase
    refine ⟨?_, ?_, served.noted, served.counted, served.asked, served.older, ?_, ?_, ?_, served.current, ?_, ?_, ?_, ?_, ?_⟩
    all_goals
      simp only [Function.update_apply]
      grind [Phase.Open]

/-- A call that has returned, or failed, lets go of its slot. -/
theorem release {map : List (ν × Nat)}
    (quiet : ∀ g, s.phase k ≠ .resolving g) (sub : map.Sublist s.map) :
    ({ s with map := map }.release k i).Served ttl := by
  have inside : ∀ n j, (n, j) ∈ map → (n, j) ∈ s.map := fun n j member => sub.subset member
  unfold State.release
  refine { served with locked := ?_, direct := ?_, read := ?_, current := ?_, unfilled := ?_, matching := ?_, pending := ?_ }
  all_goals
    simp only [Function.update_apply]
    grind

end

end State.Served

variable [DecidableEq ν]

section

variable (served : s.Served ttl) (kept : s.Kept)

include served kept

theorem State.Served.getOrInsert {k : Nat} (name : ν) (limit : Nat)
    (waits : s.phase k = .waiting) : (s.getOrInsert k name limit).Served ttl := by
  unfold State.getOrInsert
  split
  · rename_i i found
    refine served.hold waits fun full => ?_
    exact absurd (kept.room name i (kept.get_eq_some.mp found)) (Nat.not_lt.mpr full)
  · dsimp only
    split_ifs
    · obtain ⟨map, nextPrune, lastPruneAtCap, same, -, -⟩ := prune_spec s limit
      have swept := kept.prune limit
      have still := served.prune limit
      rw [same] at swept still ⊢
      exact (still.insert swept name).hold waits fun _ => Function.update_self _ _ _
    · exact (served.insert kept name).hold waits fun _ => Function.update_self _ _ _

theorem State.Served.start (early : ∀ n, s.lastInvalidate n < s.moment)
    {k : Nat} (idle : s.phase k = .idle) (name : ν) : (s.start ttl k name).Served ttl := by
  have asking := served.ask kept idle name
  have ready := kept.ask idle name
  have free := kept.begun k idle
  have fresh := served.opened k (by rw [idle]; trivial)
  unfold State.start
  split
  · refine asking.begin ready early fresh ?_ (fun _ => rfl) fun i mine => ?_
    · simpa [State.ask] using early name
    · exact absurd (mine.symm.trans free) (by simp)
  · have waiting : ((s.ask k name).setPhase k .waiting).Served (some _) :=
      asking.setPhase (Or.inl ⟨rfl, free⟩) fun _ => fresh
    exact waiting.getOrInsert (ready.setPhase (fun same => nomatch same)) name _ (Function.update_self _ _ _)

theorem State.Served.invalidate (early : ∀ n, s.lastInvalidate n < s.moment)
    (behind : ∀ i, s.generation i < s.moment) (short : s.moment < 2 ^ 64) (name : ν) :
    (s.invalidate name).Served ttl := by
  -- the counter does not wrap around
  have next : ∀ i, (s.generation i + 1) % 2 ^ 64 = s.generation i + 1 := fun i =>
    Nat.mod_eq_of_lt (Nat.lt_of_le_of_lt (behind i) short)
  have get_eq_some := fun i => @State.Kept.get_eq_some _ _ _ _ kept name i
  have uniq := kept.uniq
  have named := kept.named
  unfold State.invalidate
  simp only [next]
  split
  all_goals
    refine { served with noted := ?_, counted := ?_, asked := ?_, older := ?_, read := ?_, current := ?_, pending := ?pending }
    all_goals simp only [Function.update_apply]
    case pending =>
      intro k i g n resolving mine member
      have bound := served.read k i g (Or.inr resolving) mine
      grind
    all_goals grind

theorem State.Served.act_invariants (early : ∀ n, s.lastInvalidate n < s.moment)
    (behind : ∀ i, s.generation i < s.moment) (short : s.moment < 2 ^ 64) (move : Step ν ρ) :
    (s.act ttl move).Kept ∧ (s.act ttl move).Served ttl := by
  have same : s.Kept ∧ s.Served ttl := ⟨kept, served⟩
  have ended {k : Nat} {t : State ν ρ} (keeps : t.Kept) (serves : t.Served ttl) :
      (t.setPhase k .ended).Kept ∧ (t.setPhase k .ended).Served ttl :=
    ⟨keeps.setPhase (fun same => nomatch same), serves.setPhase (Or.inr rfl) (fun opens => opens.elim)⟩
  have dropped {k i : Nat} (mine : s.slot k = some i) (quiet : ∀ g, s.phase k ≠ .resolving g) :
      (s.release k i).Kept ∧ (s.release k i).Served ttl :=
    ⟨kept.release mine (List.Sublist.refl _) fun _ _ member gone => absurd member gone,
      served.release quiet (List.Sublist.refl _)⟩
  cases move with
  | tick d => exact ⟨{ kept with }, { served with }⟩
  | invalidate name =>
    refine ⟨?_, served.invalidate kept early behind short name⟩
    rw [State.act, State.invalidate]
    dsimp only
    split <;> exact { kept with }
  | start k name =>
    rw [State.act]
    split
    · rename_i idle
      exact ⟨kept.start idle name, served.start kept early idle name⟩
    · exact same
  | lock k =>
    rw [State.act]
    split
    · rename_i i waits mine
      split_ifs with free
      · have held : State.Kept { s with lock := Function.update s.lock i (some k) } := { kept with }
        exact ⟨held.setPhase (fun same => nomatch same), served.lock waits mine free⟩
      · exact same
    · exact same
  | load k =>
    rw [State.act]
    split
    · rename_i i holds mine
      exact ⟨kept.setPhase (fun same => nomatch same), served.load kept holds mine⟩
    · exact same
  | look k =>
    rw [State.act]
    split
    · rename_i g loaded
      exact ⟨kept.look k g, served.look kept early loaded⟩
    · exact same
  | succeed k value =>
    rw [State.act]
    split
    · rename_i g resolving
      exact ⟨kept.succeed k g value, served.succeed kept value resolving⟩
    · exact same
  | fail k =>
    rw [State.act]
    split
    · rename_i g resolving
      have fresh := served.opened k (by rw [resolving]; trivial)
      refine ⟨(kept.unlock k).setPhase ?_, served.unlock (by rw [resolving]; trivial) ?_ (fun _ => fresh) ?_⟩
      all_goals split_ifs <;> simp
    · exact same
  | forgetFailed k =>
    rw [State.act]
    split
    · rename_i i name failed mine _
      refine ended (kept.forgetFailed mine) (served.release (by simp [failed]) ?_)
      split_ifs
      · exact List.filter_sublist
      · exact List.Sublist.refl _
    · exact same
  | cancel k =>
    rw [State.act]
    split
    · exact ended kept served
    · rename_i g resolving
      have guards : (s.phase k).Guards := by rw [resolving]; trivial
      exact ⟨(kept.unlock k).setPhase (fun same => nomatch same),
        served.unlock guards (Or.inr (Or.inl rfl)) (fun opens => opens.elim) (by simp)⟩
    · exact same
  | drop k =>
    rw [State.act]
    split
    · rename_i answered mine
      exact dropped mine (by simp [answered])
    · rename_i ends mine
      exact dropped mine (by simp [ends])
    · exact same

end

theorem State.step_invariants (kept : s.Kept) (served : s.Served ttl) (short : s.moment + 1 < 2 ^ 64) (move : Step ν ρ) :
    (s.step ttl move).Kept ∧ (s.step ttl move).Served ttl := by
  have later : State.Kept { s with moment := s.moment + 1 } := { kept with }
  have still : State.Served ttl { s with moment := s.moment + 1 } :=
    { served with
      noted := fun n => Nat.le_succ_of_le (served.noted n), counted := fun i => Nat.le_succ_of_le (served.counted i) }
  exact still.act_invariants later (fun n => Nat.lt_succ_of_le (served.noted n))
    (fun i => Nat.lt_succ_of_le (served.counted i)) short move

omit [DecidableEq ν] in
theorem State.unlock_moment (k : Nat) : (s.unlock k).moment = s.moment := by
  unfold State.unlock
  split <;> rfl

omit [DecidableEq ν] in
theorem State.prune_moment (s : State ν ρ) (limit : Nat) : (s.prune limit).moment = s.moment := by
  unfold State.prune
  split_ifs <;> rfl

theorem State.getOrInsert_moment (k : Nat) (name : ν) (limit : Nat) :
    (s.getOrInsert k name limit).moment = s.moment := by
  unfold State.getOrInsert
  split
  · rfl
  · dsimp only
    split_ifs
    · exact s.prune_moment limit
    · rfl

theorem State.act_moment (move : Step ν ρ) : (s.act ttl move).moment = s.moment := by
  cases move with
  | start k name =>
    rw [State.act]
    split
    · unfold State.start
      split
      · rfl
      · exact State.getOrInsert_moment k name _
    · rfl
  | look k =>
    rw [State.act]
    split
    · unfold State.look
      repeat' split
      all_goals first | rfl | exact State.unlock_moment k
    · rfl
  | succeed k value =>
    rw [State.act]
    split
    · unfold State.succeed
      dsimp only
      split
      · exact State.unlock_moment k
      · rfl
    · rfl
  | invalidate name =>
    rw [State.act, State.invalidate]
    dsimp only
    split <;> rfl
  | _ =>
    rw [State.act]
    repeat' split
    all_goals first | rfl | exact State.unlock_moment _
theorem State.run_moment (ttl : Option Nat) (schedule : List (Step ν ρ)) :
    (State.initial.run ttl schedule).moment = schedule.length := by
  induction schedule using List.reverseRecOn with
  | nil => rfl
  | append_singleton before move ih =>
    unfold State.run at ih ⊢
    rw [List.foldl_append, List.length_append, ← ih]
    exact act_moment move

theorem State.run_invariants (ttl : Option Nat) (schedule : List (Step ν ρ)) (short : schedule.length < 2 ^ 64) :
    (State.initial.run ttl schedule).Kept ∧ (State.initial.run ttl schedule).Served ttl := by
  induction schedule using List.reverseRecOn with
  | nil => exact ⟨State.Kept.initial, State.Served.initial ttl⟩
  | append_singleton before move ih =>
    rw [List.length_append] at short
    obtain ⟨kept, served⟩ := ih (Nat.lt_of_succ_lt short)
    have counted := State.run_moment ttl before
    unfold State.run at kept served counted ⊢
    rw [List.foldl_append]
    exact State.step_invariants kept served (by rw [counted]; exact short) move

/-- Every answer is what the `resolve` of a call for the same name has returned, one that
began after the last `invalidate` before the call, and is younger than the TTL if cached. -/
def State.AnswersAreCurrent (ttl : Option Nat) (s : State ν ρ) : Prop :=
  ∀ k origin age value, s.phase k = .answered origin age value →
    s.asked origin = s.asked k ∧ s.outcome origin = some value ∧ s.since k < s.beganAt origin ∧
      ∀ a, age = some a → ∃ limit, ttl = some limit ∧ a < limit

/-- The call resolves on a slot that was left out of a full map. -/
def State.LeftOut (s : State ν ρ) (k : Nat) : Prop :=
  ∃ i, s.slot k = some i ∧ maxSlots ≤ s.crowd i ∧ ∀ name, (name, i) ∉ s.map

/-- Two `resolve`s of one name run at a time only if one of them has a slot left out. -/
def State.SingleFlight (s : State ν ρ) : Prop :=
  ∀ j k g h, j ≠ k → s.phase j = .resolving g → s.phase k = .resolving h → s.asked j = s.asked k →
    s.LeftOut j ∨ s.LeftOut k

/-- A call whose `resolve` has failed leaves no key behind for the slot only it holds. -/
def State.ForgetsFailed (ttl : Option Nat) (s : State ν ρ) : Prop :=
  ∀ k i, s.phase k = .failed → s.slot k = some i → (∀ j, s.slot j = some i → j = k) →
    (∀ name, (name, i) ∉ (s.step ttl (.forgetFailed k)).map) ∧
      (s.crowd i < maxSlots → ∀ name j, s.asked k = some name → (name, j) ∉ (s.step ttl (.forgetFailed k)).map)

omit [DecidableEq ν] in
theorem State.Kept.leftOut (kept : s.Kept) {k i : Nat} (mine : s.slot k = some i) (full : maxSlots ≤ s.crowd i) :
    s.LeftOut k :=
  ⟨i, mine, full, fun name member => absurd (kept.room name i member) (Nat.not_lt.mpr full)⟩

omit [DecidableEq ν] in
theorem State.Served.singleFlight {limit : Nat} (served : s.Served (some limit)) (kept : s.Kept) :
    s.SingleFlight := by
  intro j k g h apart left right same
  have slotted : ∀ l g, s.phase l = .resolving g → ∃ i, s.slot l = some i := by
    intro l g resolving
    cases mine : s.slot l with
    | none => exact nomatch served.direct l g resolving mine
    | some i => exact ⟨i, rfl⟩
  obtain ⟨a, first⟩ := slotted j g left
  obtain ⟨b, second⟩ := slotted k h right
  obtain ⟨n, asks, _⟩ := kept.owns j a first
  rcases Nat.lt_or_ge (s.crowd a) maxSlots with roomA | fullA
  · rcases Nat.lt_or_ge (s.crowd b) maxSlots with roomB | fullB
    · -- Both slots are the one in the map, whose lock only one call has.
      have inA := kept.keeps j a n first asks roomA
      have inB := kept.keeps k b n second (same ▸ asks) roomB
      have one := kept.uniq n a b inA inB
      subst one
      have lockA := served.locked j a (by rw [left]; trivial) first
      have lockB := served.locked k a (by rw [right]; trivial) second
      exact absurd (Option.some.inj (lockA.symm.trans lockB)) apart
    · exact Or.inr (kept.leftOut second fullB)
  · exact Or.inl (kept.leftOut first fullA)

theorem State.Kept.forgetsFailed (kept : s.Kept) : s.ForgetsFailed ttl := by
  intro k i failed mine alone
  obtain ⟨n, asks, named⟩ := kept.owns k i mine
  have single : s.holders i = [k] := by
    have holds := (kept.holder k i).mpr mine
    have only : ∀ j ∈ s.holders i, j = k := fun j member => alone j ((kept.holder j i).mp member)
    have once := kept.once i
    generalize s.holders i = held at holds only once
    rcases held with _ | ⟨j, _ | ⟨l, rest⟩⟩
    · cases holds
    · rw [only j (List.mem_singleton.mpr rfl)]
    · have repeated : j = l := (only j (by simp)).trans (only l (by simp)).symm
      simp [repeated] at once
  have map_eq : (s.step ttl (.forgetFailed k)).map =
      if s.get n = some i then s.map.filter fun pair => pair.1 ≠ n else s.map := by
    have two : s.strongCount i = 2 := by simp [State.strongCount, single]
    have acts : s.step ttl (.forgetFailed k) = { s with moment := s.moment + 1 }.forgetFailed k i n := by
      simp only [State.step, State.act, failed, mine, asks]
    have same : State.get { s with moment := s.moment + 1 } n = s.get n := rfl
    have count : State.strongCount { s with moment := s.moment + 1 } i = s.strongCount i := rfl
    rw [acts, State.forgetFailed]
    simp only [State.setPhase, State.release, same, count, two, and_true]
  rw [map_eq]
  constructor
  · intro name
    split_ifs with own
    · intro member
      have inside := (List.mem_filter.mp member).1
      have other := (List.mem_filter.mp member).2
      have equal := Option.some.inj ((kept.named name i inside).symm.trans named)
      simp [equal] at other
    · intro member
      have equal := Option.some.inj ((kept.named name i member).symm.trans named)
      exact own (kept.get_eq_some.mpr (equal ▸ member))
  · intro room name j asked
    have equal := Option.some.inj (asked.symm.trans asks)
    rw [if_pos (kept.get_eq_some.mpr (kept.keeps k i n mine asks room)), equal]
    simp

/-- With a TTL, every interleaving of fewer than `2 ^ 64` steps keeps the answers current, the resolves single-flight
and the map bounded, and forgets a failed name. Without one only the flights are not single. -/
theorem resolution_cache_single_flight (ttl : Option Nat) (schedule : List (Step ν ρ)) (short : schedule.length < 2 ^ 64) :
    let s := State.initial.run ttl schedule
    s.AnswersAreCurrent ttl ∧ (s.SingleFlight ∨ ttl = none) ∧ s.map.length ≤ maxSlots ∧ s.ForgetsFailed ttl := by
  obtain ⟨kept, served⟩ := State.run_invariants ttl schedule short
  refine ⟨served.served, ?_, kept.bounded, kept.forgetsFailed⟩
  cases ttl with
  | none => exact Or.inr rfl
  | some limit => exact Or.inl (served.singleFlight kept)

/-- A call waits for the `resolve` of another, and answers with what that one returned. -/
theorem resolution_cache_single_flight_shared :
    let s := (State.initial : State Nat Nat).run (some 5)
      [.start 0 7, .lock 0, .load 0, .look 0, .start 1 7, .succeed 0 3, .lock 1, .load 1, .look 1]
    s.phase 1 = .answered 0 (some 0) 3 ∧ s.AnswersAreCurrent (some 5) ∧ s.SingleFlight := by
  intro s
  obtain ⟨answers, single, -⟩ := resolution_cache_single_flight (some 5) ([.start 0 7, .lock 0, .load 0, .look 0, .start 1 7,
    .succeed 0 3, .lock 1, .load 1, .look 1] : List (Step Nat Nat)) (by decide)
  exact ⟨by decide, answers, single.resolve_right (by simp)⟩

/-- Without a TTL two calls for one name resolve at the same time, and the map is empty. -/
theorem two_resolves_without_ttl :
    let s := (State.initial : State Nat Nat).run none [.start 0 7, .start 1 7]
    s.phase 0 = .resolving 0 ∧ s.phase 1 = .resolving 0 ∧ s.asked 0 = s.asked 1 ∧ s.map = [] ∧
      s.slot 0 = none ∧ s.slot 1 = none ∧ ¬ s.SingleFlight := by
  refine ⟨by decide, by decide, by decide, by decide, by decide, by decide, fun single => ?_⟩
  rcases single 0 1 0 0 (by decide) (by decide) (by decide) (by decide) with ⟨i, mine, _⟩ | ⟨i, mine, _⟩
  · cases mine
  · cases mine

end Spvirit.Client.Cache
