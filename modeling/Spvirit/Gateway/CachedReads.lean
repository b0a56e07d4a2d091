import Spvirit.Gateway.Source

/-! A read that is held off is answered from the name's binding. -/

namespace Spvirit.Gateway

variable {δ π : Type} {cfg : SourceConfig} {s : SourceState δ π} {name : String} {b : Binding δ π}

/-- The answer came from the binding's client and target, while its descriptor was in force. -/
def Fetched.Of (f : Fetched δ π) (b : Binding δ π) : Prop :=
  f.clientName = b.clientName ∧ f.realName = b.realName ∧ f.inForce = some b.descriptor

/-- Every read served from a binding is one of that binding. -/
def SourceState.ServesOwn (cfg : SourceConfig) (s : SourceState δ π) : Prop :=
  ∀ name now b f, s.hit cfg name now = some (b, f) → f.Of b

def SourceState.HoldsOwn (s : SourceState δ π) : Prop :=
  ∀ name b, s.bindings name = some b → ∀ fetchedAt f, b.lastGet = some (fetchedAt, f) → f.Of b

theorem SourceState.HoldsOwn.serves (own : s.HoldsOwn) : s.ServesOwn cfg := by
  intro name now b f served
  unfold SourceState.hit at served
  split at served
  · cases served
  · rename_i bound
    split at served
    · cases served
    · rename_i held
      split_ifs at served
      cases served
      exact own name _ bound _ _ held

@[simp]
theorem bindings_move (k : Nat) (call : Call δ π) (stage : Stage δ π) : (s.move k call stage).bindings = s.bindings := rfl

theorem bindings_perform (k : Nat) (call : Call δ π) (now : Nat) : (s.perform cfg k call now).bindings = s.bindings := by
  unfold SourceState.perform SourceState.read
  split
  · rfl
  · split
    · rfl
    · split <;> rfl
  · split
    · rfl
    · split <;> rfl
  · split_ifs
    · rfl
    · split <;> rfl
  · rfl
  · split <;> rfl

variable [DecidableEq δ]

/-- A binding after a step is the one before, a claim's record, or holds the answer a
get has just stored. -/
theorem bindings_step (move : SourceStep δ π) (bound : (s.step cfg move).bindings name = some b) :
    s.bindings name = some b ∨
    (∃ clientName target descriptor now, b = recordBinding clientName target descriptor now (s.bindings name)) ∨
    ∃ k now call f before, move = .store k now ∧ s.calls k = some call ∧ call.stage = .fetched f ∧
      s.bindings call.name = some before ∧ b = before.hold now f := by
  cases move with
  | begin k id other request now =>
    left
    rw [SourceState.step] at bound
    split at bound <;> exact bound
  | settle k outcome now =>
    rw [SourceState.step] at bound
    split at bound
    · exact Or.inl bound
    · rename_i call _
      split at bound
      · rename_i target _
        unfold SourceState.settle at bound
        split at bound
        · rename_i clientName descriptor
          by_cases here : name = call.name
          · subst here
            right
            left
            rw [bindings_move] at bound
            dsimp only at bound
            rw [Function.update_self] at bound
            exact ⟨clientName, target, descriptor, now, (Option.some.inj bound).symm⟩
          · left
            rw [bindings_move] at bound
            dsimp only at bound
            rwa [Function.update_of_ne here] at bound
        · exact Or.inl bound
      · exact Or.inl bound
  | perform k now =>
    left
    rw [SourceState.step] at bound
    split at bound
    · exact bound
    · split at bound
      · rwa [bindings_perform] at bound
      · exact bound
  | answer _ _ | ensurePump _ =>
    left
    rw [SourceState.step] at bound
    split at bound
    · exact bound
    · split at bound <;> exact bound
  | store k now =>
    rw [SourceState.step] at bound
    split at bound
    · exact Or.inl bound
    · rename_i call calling
      split at bound
      · rename_i f fetched
        unfold SourceState.store at bound
        rw [bindings_move] at bound
        dsimp only at bound
        split_ifs at bound
        · by_cases here : name = call.name
          · subst here
            rw [Function.update_self] at bound
            obtain ⟨before, found, held⟩ := Option.map_eq_some_iff.mp bound
            exact Or.inr (Or.inr ⟨k, now, call, f, before, rfl, calling, fetched, found, held.symm⟩)
          · left
            rwa [Function.update_of_ne here] at bound
        · exact Or.inl bound
      · exact Or.inl bound
  | retire other =>
    left
    rw [SourceState.step] at bound
    dsimp only at bound
    by_cases here : name = other
    · subst here
      rw [Function.update_self] at bound
      cases bound
    · rwa [Function.update_of_ne here] at bound
  | tick other =>
    left
    rw [SourceState.step] at bound
    unfold SourceState.tick at bound
    split at bound <;> exact bound
  | evict _ | leave _ _ => exact Or.inl bound
  | pumpEnds other => exact Or.inl bound

/-- A claim keeps a cached read only under the client, target and descriptor it had. -/
theorem recordBinding_own {clientName target : String} {descriptor : δ} {now fetchedAt : Nat}
    {before : Option (Binding δ π)} {f : Fetched δ π}
    (own : ∀ old, before = some old → old.lastGet = some (fetchedAt, f) → f.Of old)
    (held : (recordBinding clientName target descriptor now before).lastGet = some (fetchedAt, f)) :
    f.Of (recordBinding clientName target descriptor now before) := by
  cases before with
  | none => cases held
  | some old =>
    unfold recordBinding at held ⊢
    dsimp only at held ⊢
    split_ifs at held ⊢ with same unchanged
    · obtain ⟨client, real, inForce⟩ := own old rfl held
      rw [unchanged] at inForce
      exact ⟨client, real, inForce⟩

/-- The answer a store would put into a binding is one of that binding. -/
def SourceState.StoresOwn (s : SourceState δ π) (k : Nat) : Prop :=
  ∀ call f b, s.calls k = some call → call.stage = .fetched f → s.bindings call.name = some b → f.Of b

theorem SourceState.HoldsOwn.step (own : s.HoldsOwn) (move : SourceStep δ π)
    (stores : ∀ k now, move = .store k now → s.StoresOwn k) : (s.step cfg move).HoldsOwn := by
  intro name b bound fetchedAt f held
  rcases bindings_step move bound with same | ⟨clientName, target, descriptor, now, rfl⟩ |
    ⟨k, now, call, g, before, moved, calling, fetched, found, rfl⟩
  · exact own name b same fetchedAt f held
  · exact recordBinding_own (fun old found => own name old found fetchedAt f) held
  · cases held
    exact stores k fetchedAt moved call f before calling fetched found

/-- A get that is answered right after a store is answered with what was stored. -/
theorem hit_store (on : 0 < cfg.getholdoff) {k now : Nat} {call : Call δ π} {f : Fetched δ π}
    (calling : s.calls k = some call) (fetched : call.stage = .fetched f) (bound : s.bindings call.name = some b) :
    (s.step cfg (.store k now)).hit cfg call.name now = some (b.hold now f, f) := by
  have after : (s.step cfg (.store k now)).bindings call.name = some (b.hold now f) := by
    rw [SourceState.step, calling]
    dsimp only
    rw [fetched]
    dsimp only [SourceState.store]
    rw [bindings_move, if_pos on]
    dsimp only
    rw [Function.update_self, bound]
    rfl
  have later : now < now + cfg.getholdoff := by omega
  unfold SourceState.hit
  rw [after]
  dsimp only [Binding.hold]
  rw [if_pos ⟨on, later⟩]

theorem run_append (before : List (SourceStep δ π)) (move : SourceStep δ π) :
    s.run cfg (before ++ [move]) = (s.run cfg before).step cfg move := by
  rw [SourceState.run, List.foldl_append]
  rfl

/-- At every moment of a run the reads that would be served from bindings are the
bindings' own exactly if every get that stores its answer finds a binding with the
client and target it asked and the descriptor in force when it was answered. -/
theorem cached_reads_own_iff (cfg : SourceConfig) (on : 0 < cfg.getholdoff) (schedule : List (SourceStep δ π)) :
    (∀ before, before <+: schedule → (SourceState.initial.run cfg before).ServesOwn cfg) ↔
      ∀ before k now, before ++ [.store k now] <+: schedule → (SourceState.initial.run cfg before).StoresOwn k := by
  constructor
  · intro serves before k now inside call f b calling fetched bound
    have own := serves _ inside call.name now (b.hold now f) f
    rw [run_append] at own
    exact own (hit_store on calling fetched bound)
  · intro stores before inside
    suffices own : (SourceState.initial.run cfg before).HoldsOwn from own.serves
    induction before using List.reverseRecOn with
    | nil => exact fun name b bound => by cases bound
    | append_singleton before move ih =>
      rw [run_append]
      refine (ih ((List.prefix_append before [move]).trans inside)).step move ?_
      rintro k now rfl
      exact stores before k now inside

/-- A gateway that lets everything through and holds reads off for a second. -/
def openGateway : SourceConfig := ⟨⟨false, none, none⟩, 1000, 30000, 1000⟩

def anyone : Identity := ⟨none, none⟩

/-- While a get of the first client is under way the name is claimed again, from another. -/
def rebound : List (SourceStep Unit Nat) :=
  [.begin 0 anyone "pv" .get 0, .settle 0 (some ("first", ())) 0, .perform 0 0,
    .begin 1 anyone "pv" .get 30000, .settle 1 (some ("second", ())) 30000, .answer 0 7, .store 0 30000]

/-- The next get is answered with the first client's payload from the second's binding. -/
theorem rebound_serves_other_client :
    ∃ b f, (SourceState.initial.run openGateway rebound).hit openGateway "pv" 30001 = some (b, f) ∧
      b.clientName = "second" ∧ f.clientName = "first" ∧ ¬ f.Of b := by
  refine ⟨⟨"second", "pv", (), 30000, some (30000, ⟨7, "first", "pv", some ()⟩)⟩, ⟨7, "first", "pv", some ()⟩, rfl, rfl,
    rfl, fun own => ?_⟩
  exact absurd own.1 (by decide)

theorem cached_reads_own_rebound :
    0 < openGateway.getholdoff ∧
      ((∀ before, before <+: rebound → (SourceState.initial.run openGateway before).ServesOwn openGateway) ↔
        ∀ before k now, before ++ [.store k now] <+: rebound →
          (SourceState.initial.run openGateway before).StoresOwn k) :=
  ⟨by decide, cached_reads_own_iff openGateway (by decide) rebound⟩

end Spvirit.Gateway
