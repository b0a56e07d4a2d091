import Mathlib.Data.List.Induction

/-! The cache of upstream monitors. The calls interleave at the locks of the map and of the entries. -/

namespace Spvirit.Gateway.Cache

/-- How far the `subscribe` that makes an entry has come. It has the call's number. -/
inductive Stage where
  | unmade
  /-- The entry is in the map, and its upstream is to be started. -/
  | made (k : Nat)
  /-- The upstream is started, and its handle is to be attached. -/
  | started (k : Nat)
  /-- The handle is attached, and a task watches over the entry. -/
  | supervised
  deriving DecidableEq, Repr

inductive Call where
  /-- `subscribe`, before the entry it makes is supervised. -/
  | opening
  /-- `dispatch_or_retire` has found no subscriber left. -/
  | deciding (e : Nat)
  /-- It has taken the entry out of the map and is to cancel the upstream. -/
  | removed (e : Nat)
  /-- `retire_if_idle` has taken the entry out of the map and is to cancel. -/
  | swept (e : Nat)
  /-- The death of the upstream is being handled: the handle is taken. -/
  | dying (e : Nat)
  /-- The dead entry is out of the map. -/
  | retired (e : Nat)
  /-- The senders are to be dropped. -/
  | closing (e : Nat)
  | returned
  deriving DecidableEq, Repr

/-- Entries are numbered as they are made. A subscriber has the number of its
`subscribe` call. -/
structure State (κ : Type) where
  map : κ → Option Nat
  next : Nat
  keyOf : Nat → Option κ
  stage : Nat → Stage
  subs : Nat → List Nat
  /-- The entry holds the handle of its upstream. -/
  upstream : Nat → Bool
  /-- How often the entry's upstream has been started. -/
  spawned : Nat → Nat
  /-- The upstream has ended by itself. -/
  ended : Nat → Bool
  /-- The call that took the entry out of the map. -/
  remover : Nat → Option Nat
  calls : Nat → Option Call
  /-- The key a subscriber has asked for. -/
  subscribed : Nat → Option κ
  /-- The receivers that have been dropped. -/
  dropped : Nat → Bool
  /-- The receivers that the cache has closed. -/
  closed : Nat → Bool

inductive Step (κ : Type) where
  | subscribe (k : Nat) (key : κ)
  | spawnUpstream (e : Nat)
  | attachUpstream (e : Nat)
  | drop (r : Nat)
  | dispatch (k e : Nat)
  | decide (k : Nat)
  | retireIfIdle (k e : Nat)
  | upstreamEnds (e : Nat)
  | death (k e : Nat)
  | retire (k : Nat)
  | cancelUpstream (k : Nat)
  | closeAll (k : Nat)

namespace State

variable {κ : Type} [DecidableEq κ]

def initial : State κ where
  map _ := none
  next := 0
  keyOf _ := none
  stage _ := .unmade
  subs _ := []
  upstream _ := false
  spawned _ := 0
  ended _ := false
  remover _ := none
  calls _ := none
  subscribed _ := none
  dropped _ := false
  closed _ := false

variable (s : State κ)

def setCall (k : Nat) (c : Call) : State κ := { s with calls := Function.update s.calls k (some c) }

/-- The entry is taken out of the map if its key still maps to it. -/
def unmap (k e : Nat) : State κ :=
  match s.keyOf e with
  | some key =>
    if s.map key = some e then
      { s with map := Function.update s.map key none, remover := Function.update s.remover e (some k) }
    else s
  | none => s

/-- The senders whose receivers are still there. -/
def live (e : Nat) : List Nat := (s.subs e).filter fun r => ! s.dropped r

def subscribe (k : Nat) (key : κ) : State κ :=
  match s.map key with
  | some e =>
    { s with
      subs := Function.update s.subs e (s.live e ++ [k])
      subscribed := Function.update s.subscribed k (some key) }.setCall k .returned
  | none =>
    { s with
      map := Function.update s.map key (some s.next)
      next := s.next + 1
      keyOf := Function.update s.keyOf s.next (some key)
      stage := Function.update s.stage s.next (.made k)
      subs := Function.update s.subs s.next [k]
      subscribed := Function.update s.subscribed k (some key) }.setCall k .opening

def cancelUpstream (e : Nat) : State κ := { s with upstream := Function.update s.upstream e false }

def step (s : State κ) : Step κ → State κ
  | .subscribe k key => if s.calls k = none then s.subscribe k key else s
  | .spawnUpstream e =>
    match s.stage e with
    | .made k =>
      { s with
        stage := Function.update s.stage e (.started k)
        spawned := Function.update s.spawned e (s.spawned e + 1) }
    | _ => s
  | .attachUpstream e =>
    match s.stage e with
    | .started k =>
      { s with
        stage := Function.update s.stage e .supervised
        upstream := Function.update s.upstream e true }.setCall k .returned
    | _ => s
  | .drop r =>
    -- The caller has the receiver only once `subscribe` has returned.
    if s.calls r = some .returned then { s with dropped := Function.update s.dropped r true } else s
  | .dispatch k e =>
    if s.calls k = none ∧ 0 < s.spawned e then
      { s with subs := Function.update s.subs e (s.live e) }.setCall k
        (if s.live e = [] then .deciding e else .returned)
    else s
  | .decide k =>
    match s.calls k with
    | some (.deciding e) => if s.subs e = [] then (s.unmap k e).setCall k (.removed e) else s.setCall k .returned
    | _ => s
  | .retireIfIdle k e =>
    if s.calls k = none ∧ s.stage e = .supervised then
      if s.live e = [] then (s.unmap k e).setCall k (.swept e) else s.setCall k .returned
    else s
  | .upstreamEnds e => { s with ended := Function.update s.ended e true }
  | .death k e =>
    if s.calls k = none ∧ s.stage e = .supervised ∧ s.ended e then
      if s.upstream e then (s.cancelUpstream e).setCall k (.dying e) else s.setCall k .returned
    else s
  | .retire k =>
    match s.calls k with
    | some (.dying e) => (s.unmap k e).setCall k (.retired e)
    | _ => s
  | .cancelUpstream k =>
    match s.calls k with
    | some (.removed e) => (s.cancelUpstream e).setCall k .returned
    | some (.swept e) => (s.cancelUpstream e).setCall k (.closing e)
    | some (.retired e) => (s.cancelUpstream e).setCall k (.closing e)
    | _ => s
  | .closeAll k =>
    match s.calls k with
    | some (.closing e) =>
      { s with
        subs := Function.update s.subs e []
        closed := fun r => s.closed r || (s.subs e).contains r }.setCall k .returned
    | _ => s

def run (s : State κ) (schedule : List (Step κ)) : State κ := schedule.foldl step s

end State

variable {κ : Type} {s : State κ}

/-- How often the upstream has been started by then. -/
def Stage.starts : Stage → Nat
  | .unmade | .made _ => 0
  | .started _ | .supervised => 1

/-- The call is about an entry of a stage it can be about. -/
def Call.Fits (stage : Nat → Stage) : Call → Prop
  | .opening | .returned => True
  | .deciding e | .removed e => stage e ≠ .unmade
  | .swept e | .dying e | .retired e | .closing e => stage e = .supervised

@[grind cases]
structure State.Orderly (s : State κ) : Prop where
  keyed : ∀ key e, s.map key = some e → s.keyOf e = some key
  fresh : ∀ e, s.next ≤ e → s.stage e = .unmade
  made : ∀ e, s.keyOf e = none ↔ s.stage e = .unmade
  count : ∀ e, s.spawned e = (s.stage e).starts
  named : ∀ k, s.subscribed k ≠ none ∨ s.dropped k = true → s.calls k ≠ none
  fits : ∀ k c, s.calls k = some c → c.Fits s.stage
  /-- The maker's own subscriber keeps the entry in the map. -/
  opening : ∀ e k, s.stage e = .made k ∨ s.stage e = .started k →
    (∃ key, s.map key = some e ∧ s.subscribed k = some key) ∧ k ∈ s.subs e ∧ s.dropped k = false ∧
      s.calls k = some .opening
  handle : ∀ e, s.upstream e = true → s.stage e = .supervised
  /-- Outside the map only a call that is about to cancel it leaves a handle attached. -/
  held : ∀ e, s.upstream e = true → (∃ key, s.map key = some e) ∨
    ∃ k, s.remover e = some k ∧
      (s.calls k = some (.removed e) ∨ s.calls k = some (.swept e) ∨ s.calls k = some (.retired e))
  /-- A subscriber is on the entry its key maps to, or on one about to be closed. -/
  attached : ∀ r key, s.subscribed r = some key → s.dropped r = false → s.closed r = false →
    ∃ e, r ∈ s.subs e ∧ s.keyOf e = some key ∧
      (s.map key = some e ∨ ∃ k, s.calls k = some (.retired e) ∨ s.calls k = some (.closing e))

theorem State.Orderly.initial : (State.initial : State κ).Orderly := by
  constructor <;> simp [State.initial, Stage.starts]

theorem Call.Fits.mono {c : Call} {stage stage' : Nat → Stage} (fits : c.Fits stage)
    (kept : ∀ e, stage e ≠ .unmade → stage' e ≠ .unmade) (watched : ∀ e, stage e = .supervised → stage' e = .supervised) :
    c.Fits stage' := by
  cases c <;> first | trivial | exact kept _ fits | exact watched _ fits

theorem mem_live {r e : Nat} : r ∈ s.live e ↔ r ∈ s.subs e ∧ s.dropped r = false := by
  simp [State.live]

/-- A phase that nothing relies on. -/
def Call.Plain : Call → Prop
  | .deciding _ | .dying _ | .returned => True
  | _ => False

theorem unmap_eq [DecidableEq κ] (k e : Nat) :
    s.unmap k e = { s with map := (s.unmap k e).map, remover := (s.unmap k e).remover } := by
  unfold State.unmap
  split
  · split_ifs <;> rfl
  · rfl

/-- The remover of an entry that was in the map is the call that took it out. -/
theorem remover_unmap [DecidableEq κ] (k e e' : Nat) :
    (s.unmap k e).remover e' = s.remover e' ∨ e' = e ∧ (s.unmap k e).remover e' = some k := by
  unfold State.unmap
  split
  · split_ifs
    · simp only [Function.update_apply]
      grind
    · exact Or.inl rfl
  · exact Or.inl rfl

section

variable (orderly : s.Orderly)

include orderly

variable {c : Call} {k : Nat}

namespace State.Orderly

theorem fits_moved {stage : Nat → Stage} (fit : c.Fits stage)
    (kept : ∀ e, s.stage e ≠ .unmade → stage e ≠ .unmade) (watched : ∀ e, s.stage e = .supervised → stage e = .supervised)
    (j : Nat) (d : Call) (found : (if j = k then some c else s.calls j) = some d) : d.Fits stage := by
  split_ifs at found
  · cases found
    exact fit
  · exact (orderly.fits j d found).mono kept watched

theorem fits_setCall (fit : c.Fits s.stage) (j : Nat) (d : Call)
    (found : (if j = k then some c else s.calls j) = some d) : d.Fits s.stage :=
  orderly.fits_moved fit (fun _ => id) (fun _ => id) j d found

theorem setCall
    (free : ∀ old, s.calls k = some old → old.Plain) (fit : c.Fits s.stage) : (s.setCall k c).Orderly := by
  unfold State.setCall
  refine { orderly with named := ?_, fits := ?fits, opening := ?_, held := ?_, attached := ?_ }
  all_goals simp only [Function.update_apply]
  case fits => exact orderly.fits_setCall fit
  all_goals grind [Call.Plain]

theorem cancelUpstream {e : Nat} {old : Call} (calling : s.calls k = some old)
    (goes : old = .removed e ∧ c = .returned ∨ (old = .swept e ∨ old = .retired e) ∧ c = .closing e) :
    ((s.cancelUpstream e).setCall k c).Orderly := by
  unfold State.cancelUpstream State.setCall
  have fit : c.Fits s.stage := by
    have before := orderly.fits k old calling
    rcases goes with ⟨_, rfl⟩ | ⟨rfl | rfl, rfl⟩
    · trivial
    · exact before
    · exact before
  refine { orderly with named := ?_, fits := ?_, opening := ?_, handle := ?_, held := ?_, attached := ?_ }
  all_goals simp only [Function.update_apply]
  · grind
  · exact orderly.fits_setCall fit
  · grind
  · grind
  · grind
  · intro r key asked present unclosed
    obtain ⟨e', mine, keyOf, place⟩ := orderly.attached r key asked present unclosed
    refine ⟨e', mine, keyOf, ?_⟩
    rcases place with mapped | ⟨j, phase⟩
    · exact Or.inl mapped
    · refine Or.inr ⟨j, ?_⟩
      by_cases here : j = k
      · subst here
        rw [if_pos rfl]
        grind
      · rwa [if_neg here]

theorem closeAll {e : Nat} (calling : s.calls k = some (.closing e)) :
    ({ s with
      subs := Function.update s.subs e []
      closed := fun r => s.closed r || (s.subs e).contains r }.setCall k .returned).Orderly := by
  have watched : s.stage e = .supervised := orderly.fits k _ calling
  unfold State.setCall
  refine { orderly with named := ?_, fits := ?_, opening := ?_, held := ?_, attached := ?_ }
  all_goals simp only [Function.update_apply]
  · grind
  · exact orderly.fits_setCall trivial
  · grind
  · grind
  · intro r key asked present unclosed
    simp only [Bool.or_eq_false_iff, List.contains_eq_mem, decide_eq_false_iff_not] at unclosed
    obtain ⟨e', mine, keyOf, place⟩ := orderly.attached r key asked present unclosed.1
    have other : e' ≠ e := fun same => unclosed.2 (same ▸ mine)
    refine ⟨e', by rwa [if_neg other], keyOf, ?_⟩
    rcases place with mapped | ⟨j, phase⟩
    · exact Or.inl mapped
    · refine Or.inr ⟨j, ?_⟩
      have apart : j ≠ k := by grind
      rwa [if_neg apart]

theorem prune (e : Nat) :
    ({ s with subs := Function.update s.subs e (s.live e) } : State κ).Orderly := by
  refine { orderly with opening := ?_, attached := ?_ }
  all_goals
    simp only [Function.update_apply]
    grind [mem_live]

theorem drop {r : Nat} (back : s.calls r = some .returned) :
    ({ s with dropped := Function.update s.dropped r true } : State κ).Orderly := by
  refine { orderly with named := ?_, opening := ?_, attached := ?_ }
  all_goals
    simp only [Function.update_apply]
    grind

theorem takeUpstream (e : Nat) : (s.cancelUpstream e).Orderly := by
  unfold State.cancelUpstream
  refine { orderly with handle := ?_, held := ?_ }
  all_goals
    simp only [Function.update_apply]
    grind

end State.Orderly

variable [DecidableEq κ]

namespace State.Orderly

theorem spawnUpstream (e : Nat) : (s.step (.spawnUpstream e)).Orderly := by
  rw [State.step]
  split
  · refine { orderly with fresh := ?_, made := ?_, count := ?_, fits := ?fits, opening := ?_, handle := ?_ }
    all_goals simp only [Function.update_apply]
    case fits => exact fun j c calling => (orderly.fits j c calling).mono (by grind) (by grind)
    all_goals grind [Stage.starts]
  · exact orderly

theorem attachUpstream (e : Nat) : (s.step (.attachUpstream e)).Orderly := by
  rw [State.step]
  split
  · rename_i k starting
    obtain ⟨⟨key, mapped, asked⟩, mine, present, calling⟩ := orderly.opening e k (Or.inr starting)
    unfold State.setCall
    refine ⟨orderly.keyed, ?_, ?_, ?_, ?_, ?fits, ?_, ?_, ?_, ?_⟩
    all_goals simp only [Function.update_apply]
    case fits => exact orderly.fits_moved trivial (by grind) (by grind)
    all_goals grind [Stage.starts]
  · exact orderly

theorem subscribe (new : s.calls k = none) (key : κ) :
    (s.subscribe k key).Orderly := by
  unfold State.subscribe State.setCall
  split
  · refine { orderly with named := ?_, fits := ?fits, opening := ?_, held := ?_, attached := ?_ }
    all_goals simp only [Function.update_apply]
    case fits => exact orderly.fits_setCall trivial
    all_goals grind [mem_live]
  · have unmade := orderly.fresh s.next (Nat.le_refl _)
    constructor
    all_goals simp only [Function.update_apply]
    case fits => exact orderly.fits_moved trivial (by grind) (by grind)
    all_goals grind [Stage.starts]

/-- Only the entry itself is taken out of the map. -/
theorem map_unmap {key : κ} {k e e' : Nat} :
    (s.unmap k e).map key = some e' ↔ s.map key = some e' ∧ e' ≠ e := by
  have keyed := orderly.keyed
  unfold State.unmap
  split
  · split_ifs
    · simp only [Function.update_apply]
      grind
    · grind
  · grind

theorem remover_mapped {k e : Nat} {key : κ} (mapped : s.map key = some e) :
    (s.unmap k e).remover e = some k := by
  unfold State.unmap
  rw [orderly.keyed key e mapped]
  dsimp only
  rw [if_pos mapped]
  exact Function.update_self _ _ _

/-- An entry goes out of the map, and its call on to cancel it. Only the death of its
upstream takes out an entry with subscribers. -/
theorem unmap {e : Nat} (absent : s.live e = [] ∨ c = .retired e)
    (free : ∀ old, s.calls k = some old → old.Plain) (fit : c.Fits s.stage)
    (cancels : c = .removed e ∨ c = .swept e ∨ c = .retired e) : ((s.unmap k e).setCall k c).Orderly := by
  have map_unmap := fun key e' => @State.Orderly.map_unmap _ _ orderly _ key k e e'
  have other := fun e' => @remover_unmap _ s _ k e e'
  have removes := fun key mapped => @State.Orderly.remover_mapped _ _ orderly _ k e key mapped
  have unheld : ∀ e' j, s.stage e' = .made j ∨ s.stage e' = .started j → e' ≠ e := by
    rintro e' j making rfl
    obtain ⟨_, mine, present, _⟩ := orderly.opening e' j making
    rcases absent with empty | rfl
    · exact List.not_mem_nil (empty ▸ mem_live.mpr ⟨mine, present⟩)
    · have watched : s.stage e' = .supervised := fit
      simp [watched] at making
  rw [unmap_eq]
  unfold State.setCall
  refine { orderly with keyed := ?_, named := ?_, fits := ?_, opening := ?_, held := ?_, attached := ?_ }
  all_goals simp only [Function.update_apply]
  · grind
  · grind
  · exact orderly.fits_setCall fit
  · grind [Call.Plain]
  · intro e' on
    rcases orderly.held e' on with ⟨key, mapped⟩ | ⟨j, remover, phase⟩
    · by_cases same : e' = e
      · subst same
        refine Or.inr ⟨k, removes key mapped, ?_⟩
        simpa using cancels
      · exact Or.inl ⟨key, (map_unmap key e').mpr ⟨mapped, same⟩⟩
    · right
      rcases other e' with kept | ⟨rfl, taken⟩
      · refine ⟨j, kept.trans remover, ?_⟩
        have apart : j ≠ k := by grind [Call.Plain]
        rwa [if_neg apart]
      · refine ⟨k, taken, ?_⟩
        simpa using cancels
  · intro r key asked present unclosed
    obtain ⟨e', mine, keyOf, place⟩ := orderly.attached r key asked present unclosed
    refine ⟨e', mine, keyOf, ?_⟩
    rcases place with mapped | ⟨j, phase⟩
    · by_cases same : e' = e
      · subst same
        rcases absent with empty | rfl
        · exact absurd (empty ▸ mem_live.mpr ⟨mine, present⟩) List.not_mem_nil
        · exact Or.inr ⟨k, Or.inl (if_pos rfl)⟩
      · exact Or.inl ((map_unmap key e').mpr ⟨mapped, same⟩)
    · refine Or.inr ⟨j, ?_⟩
      have apart : j ≠ k := by grind [Call.Plain]
      rwa [if_neg apart]

theorem step (move : Step κ) : (s.step move).Orderly := by
  cases move with
  | subscribe k key =>
    rw [State.step]
    split_ifs with new
    · exact orderly.subscribe new key
    · exact orderly
  | spawnUpstream e => exact orderly.spawnUpstream e
  | attachUpstream e => exact orderly.attachUpstream e
  | drop r =>
    rw [State.step]
    split_ifs with back
    · exact orderly.drop back
    · exact orderly
  | dispatch k e =>
    rw [State.step]
    by_cases begins : s.calls k = none ∧ 0 < s.spawned e
    · rw [if_pos begins]
      refine (orderly.prune e).setCall (by simp [begins.1]) ?_
      split_ifs
      · intro unmade
        have started := begins.2
        rw [orderly.count e, show s.stage e = .unmade from unmade] at started
        cases started
      · trivial
    · rw [if_neg begins]
      exact orderly
  | decide k =>
    rw [State.step]
    split
    · rename_i e calling
      have plain : ∀ old, s.calls k = some old → old.Plain := by
        intro old found
        rw [calling] at found
        cases found
        trivial
      have fit := orderly.fits k _ calling
      split_ifs with empty
      · exact orderly.unmap (Or.inl (by simp [State.live, empty])) plain fit (Or.inl rfl)
      · exact orderly.setCall plain trivial
    · exact orderly
  | retireIfIdle k e =>
    rw [State.step]
    by_cases begins : s.calls k = none ∧ s.stage e = .supervised
    · rw [if_pos begins]
      split_ifs with empty
      · exact orderly.unmap (Or.inl empty) (by simp [begins.1]) begins.2 (Or.inr (Or.inl rfl))
      · exact orderly.setCall (by simp [begins.1]) trivial
    · rw [if_neg begins]
      exact orderly
  | upstreamEnds e => exact { orderly with }
  | death k e =>
    rw [State.step]
    by_cases begins : s.calls k = none ∧ s.stage e = .supervised ∧ s.ended e
    · rw [if_pos begins]
      split_ifs
      · exact (orderly.takeUpstream e).setCall (by simp [State.cancelUpstream, begins.1]) begins.2.1
      · exact orderly.setCall (by simp [begins.1]) trivial
    · rw [if_neg begins]
      exact orderly
  | retire k =>
    rw [State.step]
    split
    · rename_i e calling
      have fit := orderly.fits k _ calling
      refine orderly.unmap (Or.inr rfl) (fun old found => ?_) fit (Or.inr (Or.inr rfl))
      rw [calling] at found
      cases found
      trivial
    · exact orderly
  | cancelUpstream k =>
    rw [State.step]
    split
    · rename_i calling
      exact orderly.cancelUpstream calling (Or.inl ⟨rfl, rfl⟩)
    · rename_i calling
      exact orderly.cancelUpstream calling (Or.inr ⟨Or.inl rfl, rfl⟩)
    · rename_i calling
      exact orderly.cancelUpstream calling (Or.inr ⟨Or.inr rfl, rfl⟩)
    · exact orderly
  | closeAll k =>
    rw [State.step]
    split
    · rename_i calling
      exact orderly.closeAll calling
    · exact orderly

end State.Orderly

end

variable [DecidableEq κ]

theorem State.Orderly.run (orderly : s.Orderly) (schedule : List (Step κ)) : (s.run schedule).Orderly := by
  induction schedule generalizing s with
  | nil => exact orderly
  | cons move schedule ih => exact ih (orderly.step move)

def State.tornDown (s : State κ) : Step κ → Option Nat
  | .decide k | .retire k =>
    match s.calls k with
    | some (.deciding e) | some (.dying e) => some e
    | _ => none
  | .retireIfIdle _ e => some e
  | _ => none

def State.Finished (s : State κ) : Prop := ∀ k c, s.calls k = some c → c = .returned

theorem State.Orderly.keeps_others (orderly : s.Orderly) {move : Step κ} {e e' : Nat} (torn : s.tornDown move = some e)
    (other : e' ≠ e) {key : κ} (mapped : s.map key = some e') : (s.step move).map key = some e' := by
  have kept : ∀ k, (s.unmap k e).map key = some e' := fun k => orderly.map_unmap.mpr ⟨mapped, other⟩
  unfold State.tornDown at torn
  cases move with
  | decide k =>
    rw [State.step]
    split
    · rename_i calling
      simp only [calling, Option.some.injEq] at torn
      subst torn
      split_ifs
      · exact kept _
      · exact mapped
    · exact mapped
  | retire k =>
    rw [State.step]
    split
    · rename_i calling
      simp only [calling, Option.some.injEq] at torn
      subst torn
      exact kept _
    · exact mapped
  | retireIfIdle k _ =>
    cases torn
    rw [State.step]
    split_ifs
    · exact kept _
    · exact mapped
    · exact mapped
  | subscribe _ _ | spawnUpstream _ => cases torn
  | attachUpstream _ | drop _ => cases torn
  | dispatch _ _ | upstreamEnds _ => cases torn
  | death _ _ | cancelUpstream _ => cases torn
  | closeAll _ => cases torn

omit [DecidableEq κ] in
theorem State.Orderly.started (orderly : s.Orderly) {e : Nat} (known : s.keyOf e ≠ none) :
    s.spawned e ≤ 1 ∧ (s.Finished → s.spawned e = 1) := by
  rw [orderly.count e]
  cases stage : s.stage e with
  | unmade => exact absurd ((orderly.made e).mpr stage) known
  | made k =>
    refine ⟨Nat.zero_le _, fun finished => ?_⟩
    cases finished k _ (orderly.opening e k (Or.inl stage)).2.2.2
  | started _ | supervised => exact ⟨Nat.le_refl _, fun _ => rfl⟩

/-- Whatever the interleaving: an entry is mapped under one key. Its upstream is
started once. Out of the map it has a handle only while the call that took it out has not
returned. No teardown takes out another entry. And once all calls have returned, a
subscriber that neither dropped its receiver nor was closed is on the entry its key maps to. -/
theorem cache_dedups_without_orphans (schedule : List (Step κ)) :
    let s := State.initial.run schedule
    (∀ key key' e, s.map key = some e → s.map key' = some e → key = key') ∧
    (∀ e, s.keyOf e ≠ none → s.spawned e ≤ 1 ∧ (s.Finished → s.spawned e = 1)) ∧
    (∀ e, s.upstream e = true → (∀ key, s.map key ≠ some e) → ∃ k, s.remover e = some k ∧ s.calls k ≠ some .returned) ∧
    (∀ move e, s.tornDown move = some e → ∀ key e', e' ≠ e → s.map key = some e' → (s.step move).map key = some e') ∧
    (s.Finished → ∀ r key, s.subscribed r = some key → s.dropped r = false → s.closed r = false →
      ∃ e, s.map key = some e ∧ r ∈ s.subs e) := by
  intro s
  have orderly : s.Orderly := State.Orderly.initial.run schedule
  refine ⟨fun key key' e mapped mapped' => ?_, fun e known => orderly.started known, fun e on out => ?_,
    fun move e torn key e' other mapped => orderly.keeps_others torn other mapped,
    fun finished r key asked present unclosed => ?_⟩
  · exact Option.some.inj ((orderly.keyed key e mapped).symm.trans (orderly.keyed key' e mapped'))
  · rcases orderly.held e on with ⟨key, mapped⟩ | ⟨k, remover, phase⟩
    · exact absurd mapped (out key)
    · refine ⟨k, remover, fun back => ?_⟩
      simp [back] at phase
  · obtain ⟨e, mine, _, mapped | ⟨k, phase | phase⟩⟩ := orderly.attached r key asked present unclosed
    · exact ⟨e, mapped, mine⟩
    · cases finished k _ phase
    · cases finished k _ phase

/-- A subscriber that comes while a tick has just found no other keeps the entry. -/
example :
    let s := (State.initial : State String).run [.subscribe 0 "pv", .spawnUpstream 0, .attachUpstream 0, .drop 0,
      .dispatch 1 0, .subscribe 2 "pv", .decide 1]
    s.map "pv" = some 0 ∧ s.subs 0 = [2] ∧ s.upstream 0 = true := by
  decide

end Spvirit.Gateway.Cache
