import Mathlib.Data.List.Induction
import Mathlib.Data.List.Sort

/-! The source registry and its memo of background resolutions, which every change of the list clears. -/

namespace Spvirit.Resolver

structure SourceEntry (σ : Type) where
  label : String
  order : Int
  source : σ
  deriving DecidableEq

inductive TryClaim where
  | yes
  | no
  | unknown
  deriving DecidableEq

/-- A noted outcome. What the claim was evaluated against is a history that no step reads. -/
structure Noted (σ : Type) where
  time : Nat
  found : Bool
  seen : List (SourceEntry σ)
  deriving DecidableEq

structure MemoConfig where
  positiveTtl : Nat
  negativeTtl : Nat
  capacity : Nat
  evictBatch : Nat

/-- Times in milliseconds. -/
def MemoConfig.default : MemoConfig where
  positiveTtl := 10000
  negativeTtl := 2000
  capacity := 4096
  evictBatch := 1024

def MemoConfig.ttl (cfg : MemoConfig) (found : Bool) : Nat := if found then cfg.positiveTtl else cfg.negativeTtl

/-- A resolution under way: whom and what it is for, and the list it took. -/
structure Resolution (σ κ : Type) where
  key : κ
  seen : List (SourceEntry σ)

/-- The registry. While a change holds the lock, `changing` is the list it found; the
memo has an entry for each key at most. -/
structure Registry (σ κ : Type) where
  sources : List (SourceEntry σ)
  changing : Option (List (SourceEntry σ))
  memo : List (κ × Noted σ)
  tasks : Nat → Option (Resolution σ κ)

inductive Change (σ : Type) where
  | add (entry : SourceEntry σ)
  | remove (label : String)

/-- An added source stands behind those of its order. -/
def Change.apply {σ : Type} (sources : List (SourceEntry σ)) : Change σ → List (SourceEntry σ)
  | .add entry => (sources ++ [entry]).insertionSort fun a b => a.order ≤ b.order
  | .remove label => sources.filter fun e => e.label ≠ label

inductive Step (σ κ : Type) where
  /-- A resolution takes the source list. -/
  | snapshot (task : Nat) (key : κ)
  /-- The claims have been awaited and the outcome is noted. -/
  | note (task : Nat) (found : Bool) (now : Nat)
  /-- A claim panics, and with it the resolution. -/
  | abandon (task : Nat)
  /-- A change takes the lock of the list. -/
  | change (c : Change σ)
  /-- It clears the memo and lets go of the lock. -/
  | clear

variable {σ κ : Type}

def live (cfg : MemoConfig) (now : Nat) (e : κ × Noted σ) : Bool := now - e.2.time < cfg.ttl e.2.found

/-- Room for one more: a full memo drops what has expired and, if that is not enough, a batch of the oldest. -/
def makeRoom (cfg : MemoConfig) (now : Nat) (memo : List (κ × Noted σ)) : List (κ × Noted σ) :=
  if memo.length < cfg.capacity then memo
  else
    let fresh := memo.filter (live cfg now)
    if fresh.length < cfg.capacity then fresh
    else (fresh.insertionSort fun a b => a.2.time ≤ b.2.time).drop (min (max cfg.evictBatch 1) fresh.length)

theorem mem_makeRoom {cfg : MemoConfig} {now : Nat} {memo : List (κ × Noted σ)} {e : κ × Noted σ}
    (member : e ∈ makeRoom cfg now memo) :
    e ∈ memo := by
  unfold makeRoom at member
  dsimp only at member
  split_ifs at member
  · exact member
  · exact List.mem_of_mem_filter member
  · exact List.mem_of_mem_filter ((List.mem_insertionSort _).mp (List.mem_of_mem_drop member))

variable [DecidableEq κ]

def noteResolved (cfg : MemoConfig) (memo : List (κ × Noted σ)) (key : κ) (n : Noted σ) : List (κ × Noted σ) :=
  (key, n) :: (makeRoom cfg n.time memo).filter fun e => e.1 ≠ key

namespace Registry

def empty : Registry σ κ := ⟨[], none, [], fun _ => none⟩

def step (cfg : MemoConfig) (s : Registry σ κ) : Step σ κ → Registry σ κ
  | .snapshot task key =>
    if s.changing.isSome then s else { s with tasks := Function.update s.tasks task (some ⟨key, s.sources⟩) }
  | .note task found now =>
    match s.tasks task with
    | none => s
    | some r =>
      { s with
        memo := noteResolved cfg s.memo r.key ⟨now, found, r.seen⟩
        tasks := Function.update s.tasks task none }
  | .abandon task => { s with tasks := Function.update s.tasks task none }
  | .change c =>
    if s.changing.isSome then s else { s with sources := c.apply s.sources, changing := some s.sources }
  | .clear => if s.changing.isSome then { s with memo := [], changing := none } else s

def run (cfg : MemoConfig) (schedule : List (Step σ κ)) : Registry σ κ := schedule.foldl (step cfg) empty

/-- The remembered outcome, unless it has expired or the memo is locked by another. -/
def recallMemo (cfg : MemoConfig) (s : Registry σ κ) (busy : Bool) (key : κ) (now : Nat) : Option (Noted σ) :=
  if busy then none else ((s.memo.find? fun e => e.1 = key).filter (live cfg now)).map Prod.snd

def answerOf (n : Option (Noted σ)) : TryClaim :=
  match n with
  | some n => if n.found then .yes else .no
  | none => .unknown

/-- The answer, and the memo entry it went by if it did. The list's lock is contended
while a change holds it or waits for it; `probe` is what each source knows. -/
def tryClaim (cfg : MemoConfig) (s : Registry σ κ) (contended busy : Bool) (probe : σ → TryClaim) (key : κ) (now : Nat) :
    TryClaim × Option (Noted σ) :=
  let remembered := (answerOf (s.recallMemo cfg busy key now), s.recallMemo cfg busy key now)
  if contended then remembered
  else if s.sources.any fun e => probe e.source = .yes then (.yes, none)
  else if s.sources.all fun e => probe e.source = .no then (.no, none)
  else remembered

/-- The list in force; while a change is under way, the one before it too. -/
def InForce (s : Registry σ κ) (sources : List (SourceEntry σ)) : Prop := sources = s.sources ∨ s.changing = some sources

/-- Whoever asks, an answer from the memo rests on a claim evaluated against a list in force. -/
def AnswersInForce (cfg : MemoConfig) (s : Registry σ κ) : Prop := ∀ contended busy probe key now n,
  (s.tryClaim cfg contended busy probe key now).2 = some n → s.InForce n.seen

/-- What the memo holds is in force, or never recalled. -/
def Current (cfg : MemoConfig) (s : Registry σ κ) : Prop := ∀ e ∈ s.memo, s.InForce e.2.seen ∨ cfg.ttl e.2.found = 0

variable {cfg : MemoConfig} {s : Registry σ κ}

theorem run_snoc (before : List (Step σ κ)) (move : Step σ κ) :
    run cfg (before ++ [move]) = (run cfg before).step cfg move := by
  simp [run, List.foldl_append]

theorem mem_noteResolved {memo : List (κ × Noted σ)} {key : κ} {n : Noted σ} {e : κ × Noted σ}
    (member : e ∈ noteResolved cfg memo key n) : e = (key, n) ∨ e ∈ memo := by
  rcases List.mem_cons.mp member with new | old
  · exact Or.inl new
  · exact Or.inr (mem_makeRoom (List.mem_of_mem_filter old))

/-- An answer from the memo goes by an entry that has not expired. -/
theorem tryClaim_recalls {contended busy : Bool} {probe : σ → TryClaim} {key : κ} {now : Nat} {n : Noted σ}
    (answered : (s.tryClaim cfg contended busy probe key now).2 = some n) :
    (key, n) ∈ s.memo ∧ now - n.time < cfg.ttl n.found := by
  have recalled : s.recallMemo cfg busy key now = some n := by
    unfold tryClaim at answered
    dsimp only at answered
    split_ifs at answered <;> exact answered
  unfold recallMemo at recalled
  split_ifs at recalled
  obtain ⟨e, kept, rfl⟩ := Option.map_eq_some_iff.mp recalled
  obtain ⟨found, fresh⟩ := Option.filter_eq_some_iff.mp kept
  have same : e.1 = key := by simpa using List.find?_some found
  refine ⟨?_, by simpa [live] using fresh⟩
  rw [← same]
  exact List.mem_of_find?_eq_some found

theorem Current.answersInForce (current : s.Current cfg) : s.AnswersInForce cfg := by
  intro contended busy probe key now n answered
  obtain ⟨member, fresh⟩ := tryClaim_recalls answered
  rcases current _ member with inForce | never
  · exact inForce
  · dsimp only at never
    omega

/-- A noted outcome is recalled at once by whoever finds the list locked. -/
theorem tryClaim_noted {task : Nat} {found : Bool} {now : Nat} {r : Resolution σ κ} (pending : s.tasks task = some r)
    (lives : cfg.ttl found ≠ 0) :
    ((s.step cfg (.note task found now)).tryClaim cfg true false (fun _ => .unknown) r.key now).2
      = some ⟨now, found, r.seen⟩ := by
  have positive : 0 < cfg.ttl found := Nat.pos_of_ne_zero lives
  simp [step, pending, tryClaim, recallMemo, noteResolved, live, positive]

theorem Current.step {move : Step σ κ} (current : s.Current cfg)
    (inForce : ∀ task found now r, move = .note task found now → s.tasks task = some r →
      s.InForce r.seen ∨ cfg.ttl found = 0) : (s.step cfg move).Current cfg := by
  cases move with
  | snapshot task key =>
    rw [Registry.step]
    split_ifs
    · exact current
    · exact current
  | note task found now =>
    rw [Registry.step]
    rcases pending : s.tasks task with _ | r
    · exact current
    · intro e member
      rcases mem_noteResolved member with rfl | old
      · exact inForce task found now r rfl pending
      · exact current e old
  | abandon task => exact current
  | change c =>
    rw [Registry.step]
    split_ifs with locked
    · exact current
    · intro e member
      rcases current e member with (same | before) | never
      · exact Or.inl (Or.inr (congrArg some same.symm))
      · rw [before] at locked
        exact absurd rfl locked
      · exact Or.inr never
  | clear =>
    rw [Registry.step]
    split_ifs
    · intro e member
      cases member
    · exact current

theorem Current.run {schedule : List (Step σ κ)}
    (inForce : ∀ before task found now r, before ++ [.note task found now] <+: schedule →
      (run cfg before).tasks task = some r → (run cfg before).InForce r.seen ∨ cfg.ttl found = 0) :
    (run cfg schedule).Current cfg := by
  induction schedule using List.reverseRecOn with
  | nil =>
    intro e member
    cases member
  | append_singleton before move ih =>
    rw [run_snoc]
    refine (ih fun earlier task found now r here => inForce earlier task found now r
      (here.trans (List.prefix_append before [move]))).step ?_
    rintro task found now r rfl pending
    exact inForce before task found now r (List.prefix_refl _) pending

/-- Throughout a run the answers from the memo rest on claims against a list in force
if and only if each outcome is noted while the list its resolution took is still in
force, or is never recalled. -/
theorem memo_in_force_iff (cfg : MemoConfig) (schedule : List (Step σ κ)) :
    (∀ before, before <+: schedule → (run cfg before).AnswersInForce cfg) ↔
      ∀ before task found now r, before ++ [.note task found now] <+: schedule → (run cfg before).tasks task = some r →
        (run cfg before).InForce r.seen ∨ cfg.ttl found = 0 := by
  constructor
  · intro answers before task found now r here pending
    by_cases never : cfg.ttl found = 0
    · exact Or.inr never
    · left
      have after := answers _ here
      rw [run_snoc] at after
      have stands := after _ _ _ _ _ _ (@tryClaim_noted _ _ _ _ _ _ _ now _ pending never)
      have same : ((run cfg before).step cfg (.note task found now)).sources = (run cfg before).sources ∧
          ((run cfg before).step cfg (.note task found now)).changing = (run cfg before).changing := by
        rw [Registry.step, pending]
        exact ⟨rfl, rfl⟩
      unfold InForce at stands ⊢
      rwa [same.1, same.2] at stands
  · intro inForce before reached
    refine Current.answersInForce (Current.run fun earlier task found now r here => ?_)
    exact inForce earlier task found now r (here.trans reached)

/-- A resolution takes the list of one source, a second source is added, and the
outcome is noted behind the clearing of the memo: the new source is denied without
having been asked. -/
theorem stale_outcome_denies_new_source :
    let old : SourceEntry Nat := ⟨"a", 0, 0⟩
    let new : SourceEntry Nat := ⟨"b", 1, 1⟩
    let s := run .default [.change (.add old), .clear, .snapshot 0 "pv", .change (.add new), .clear, .note 0 false 5]
    s.changing = none ∧ s.sources = [old, new] ∧
      s.tryClaim .default false false (fun _ => .unknown) "pv" 6 = (.no, some ⟨5, false, [old]⟩) ∧
      ¬ s.AnswersInForce .default := by
  intro old new s
  have answer : s.tryClaim .default false false (fun _ => .unknown) "pv" 6 = (.no, some ⟨5, false, [old]⟩) := by decide
  have settled : s.changing = none := rfl
  have both : s.sources = [old, new] := by decide
  refine ⟨settled, both, answer, fun inForce => ?_⟩
  rcases inForce false false (fun _ => .unknown) "pv" 6 _ (congrArg Prod.snd answer) with same | before
  · rw [both] at same
    cases same
  · rw [settled] at before
    cases before

end Registry

end Spvirit.Resolver
