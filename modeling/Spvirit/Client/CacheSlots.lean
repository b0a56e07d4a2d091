import Mathlib.Data.List.Induction
import Spvirit.Client.Cache

/-! How the slots of the resolution cache, its map and the calls that hold slots go together. -/

namespace Spvirit.Client.Cache

variable {ν ρ : Type} {s : State ν ρ} {ttl : Option Nat}

/-- How the map, the slots and the calls that hold them go together. A slot that has been
stored stays in the map as long as it is held, and one that was not has a single holder. -/
structure State.Kept (s : State ν ρ) : Prop where
  uniq : ∀ n i j, (n, i) ∈ s.map → (n, j) ∈ s.map → i = j
  named : ∀ n i, (n, i) ∈ s.map → s.nameOf i = some n
  room : ∀ n i, (n, i) ∈ s.map → s.crowd i < maxSlots
  fresh : ∀ i, s.next ≤ i → s.nameOf i = none
  holder : ∀ k i, k ∈ s.holders i ↔ s.slot k = some i
  once : ∀ i, (s.holders i).Nodup
  owns : ∀ k i, s.slot k = some i → ∃ n, s.asked k = some n ∧ s.nameOf i = some n
  begun : ∀ k, s.phase k = .idle → s.slot k = none
  keeps : ∀ k i n, s.slot k = some i → s.asked k = some n → s.crowd i < maxSlots → (n, i) ∈ s.map
  solo : ∀ j k i, s.slot j = some i → s.slot k = some i → maxSlots ≤ s.crowd i → j = k
  bounded : s.map.length ≤ maxSlots

theorem State.Kept.initial : (State.initial : State ν ρ).Kept := by
  constructor <;> simp [State.initial]

/-- A sweep takes names out of the map, none of a slot that is held. -/
theorem prune_spec (s : State ν ρ) (ttl : Nat) : ∃ map nextPrune lastPruneAtCap,
    s.prune ttl = { s with map := map, nextPrune := nextPrune, lastPruneAtCap := lastPruneAtCap } ∧
      map.Sublist s.map ∧ ∀ pair ∈ s.map, s.holders pair.2 ≠ [] → pair ∈ map := by
  unfold State.prune
  split_ifs
  · exact ⟨s.map, s.nextPrune, s.lastPruneAtCap, rfl, List.Sublist.refl _, fun _ member _ => member⟩
  all_goals
    refine ⟨_, _, _, rfl, List.filter_sublist, fun pair member held => ?_⟩
    have counted := List.length_pos_iff.mpr held
    exact List.mem_filter.mpr ⟨member, by simp [State.strongCount]; omega⟩

section

variable (kept : s.Kept)

include kept

namespace State.Kept

/-- The steps that leave the map and its slots to whom they belong. -/
theorem setPhase {k : Nat} {phase : Phase ρ} (active : phase ≠ .idle) : (s.setPhase k phase).Kept := by
  refine { kept with begun := ?_ }
  intro j idle
  unfold State.setPhase at idle
  simp only [Function.update_apply] at idle
  split_ifs at idle
  · exact absurd idle active
  · exact kept.begun j idle

theorem unlock (k : Nat) : (s.unlock k).Kept := by
  unfold State.unlock
  split
  · exact { kept with }
  · exact kept

theorem prune (ttl : Nat) : (s.prune ttl).Kept := by
  obtain ⟨map, nextPrune, lastPruneAtCap, same, sub, held⟩ := prune_spec s ttl
  rw [same]
  have inside : ∀ n i, (n, i) ∈ map → (n, i) ∈ s.map := fun n i member => sub.subset member
  refine ⟨?_, ?_, ?_, kept.fresh, kept.holder, kept.once, kept.owns, kept.begun, ?_, kept.solo, ?_⟩
  · exact fun n i j left right => kept.uniq n i j (inside n i left) (inside n j right)
  · exact fun n i member => kept.named n i (inside n i member)
  · exact fun n i member => kept.room n i (inside n i member)
  · intro k i n holds asks stored
    have holding := (kept.holder k i).mpr holds
    exact held (n, i) (kept.keeps k i n holds asks stored) (List.ne_nil_of_mem holding)
  · exact Nat.le_trans sub.length_le kept.bounded

theorem hold {k i : Nat} {name : ν} (free : s.slot k = none) (begun : s.phase k ≠ .idle)
    (asks : s.asked k = some name) (named : s.nameOf i = some name)
    (stored : s.crowd i < maxSlots → (name, i) ∈ s.map) (alone : maxSlots ≤ s.crowd i → ∀ j, s.slot j ≠ some i) :
    (s.hold k i).Kept := by
  obtain ⟨uniq, named', room, fresh, holder, once, owns, idle, keeps, solo, bounded⟩ := kept
  have apart : k ∉ s.holders i := fun member => nomatch free.symm.trans ((holder k i).mp member)
  refine ⟨uniq, named', room, fresh, ?_, ?_, ?_, ?_, ?_, ?_, bounded⟩
  all_goals unfold State.hold; simp only [Function.update_apply]
  · grind
  · intro j
    split_ifs with same
    · subst same
      refine List.nodup_append.mpr ⟨once j, by simp, ?_⟩
      rintro held member other single rfl
      exact apart (List.mem_singleton.mp single ▸ member)
    · exact once j
  · grind
  · grind
  · grind
  · grind

theorem insert (name : ν) (missing : ∀ i, (name, i) ∉ s.map) : (s.insert name).Kept := by
  obtain ⟨uniq, named, room, fresh, holder, once, owns, idle, keeps, solo, bounded⟩ := kept
  have unmade := fresh s.next (Nat.le_refl _)
  have unheld : ∀ k, s.slot k ≠ some s.next := by grind
  have member : ∀ n i, (n, i) ∈ (s.insert name).map ↔
      (n, i) ∈ s.map ∨ s.map.length < maxSlots ∧ n = name ∧ i = s.next := by
    intro n i
    unfold State.insert
    dsimp only
    split_ifs <;> grind
  have length : (s.insert name).map.length ≤ maxSlots := by
    unfold State.insert
    dsimp only
    split_ifs <;> grind
  constructor
  · grind
  · intro n i
    rw [member]
    unfold State.insert
    grind [Function.update_apply]
  · intro n i
    rw [member]
    unfold State.insert
    grind [Function.update_apply]
  · unfold State.insert
    grind [Function.update_apply]
  · unfold State.insert
    grind [Function.update_apply]
  · unfold State.insert
    grind [Function.update_apply, List.nodup_nil]
  · unfold State.insert
    grind [Function.update_apply]
  · exact idle
  · intro k i n
    rw [member]
    unfold State.insert
    grind [Function.update_apply]
  · unfold State.insert
    grind [Function.update_apply]
  · exact length

theorem insert_hold {k : Nat} {name : ν} (missing : ∀ i, (name, i) ∉ s.map)
    (free : s.slot k = none) (begun : s.phase k ≠ .idle) (asks : s.asked k = some name) :
    ((s.insert name).hold k s.next).Kept := by
  have unmade := kept.fresh s.next (Nat.le_refl _)
  refine (kept.insert name missing).hold free begun asks (Function.update_self _ _ _) ?_ ?_
  · intro stored
    have room : s.map.length < maxSlots := by simpa [State.insert] using stored
    simp [State.insert, Nat.not_le.mpr room]
  · intro _ j holds
    obtain ⟨n, _, named⟩ := kept.owns j s.next holds
    rw [unmade] at named
    cases named

/-- What a held slot's other holders and the map look like when a call lets go of it. The
slot may leave the map then, if nobody else holds it. -/
theorem release {k i : Nat} {map : List (ν × Nat)} (mine : s.slot k = some i)
    (sub : map.Sublist s.map) (left : ∀ n j, (n, j) ∈ s.map → (n, j) ∉ map → j = i ∧ s.holders i = [k]) :
    ({ s with map := map }.release k i).Kept := by
  obtain ⟨uniq, named, room, fresh, holder, once, owns, begun, keeps, solo, bounded⟩ := kept
  have inside : ∀ n j, (n, j) ∈ map → (n, j) ∈ s.map := fun n j member => sub.subset member
  have alone : s.holders i = [k] → ∀ j, s.slot j = some i → j = k := by
    intro only j holds
    have member := (holder j i).mpr holds
    rw [only] at member
    exact List.mem_singleton.mp member
  have length := Nat.le_trans sub.length_le bounded
  unfold State.release
  constructor <;> simp only [Function.update_apply]
  · grind
  · grind
  · grind
  · exact fresh
  · grind
  · intro j
    split_ifs
    · exact (once i).filter _
    · exact once j
  · grind
  · grind
  · grind
  · grind
  · exact length

theorem ask {k : Nat} (idle : s.phase k = .idle) (name : ν) : (s.ask k name).Kept := by
  have free := kept.begun k idle
  obtain ⟨uniq, named, room, fresh, holder, once, owns, begun, keeps, solo, bounded⟩ := kept
  refine ⟨uniq, named, room, fresh, holder, once, ?_, begun, ?_, solo, bounded⟩
  all_goals unfold State.ask; simp only [Function.update_apply]
  · grind
  · grind

theorem begin (k g : Nat) : (s.begin k g).Kept := by
  have noted : State.Kept { s with beganAt := Function.update s.beganAt k s.moment } := { kept with }
  exact noted.setPhase (fun same => nomatch same)

theorem look (k g : Nat) : (s.look ttl k g).Kept := by
  unfold State.look
  split
  · split
    · split_ifs
      · exact (kept.unlock k).setPhase (fun same => nomatch same)
      · exact kept.begin k g
    · exact kept.begin k g
  · exact kept

theorem succeed (k g : Nat) (value : ρ) : (s.succeed k g value).Kept := by
  unfold State.succeed
  dsimp only
  split
  · rename_i i _
    have stored : State.Kept { s with
        outcome := Function.update s.outcome k (some value)
        entry := Function.update s.entry i (some ⟨value, s.clock, g, k⟩) } := { kept with }
    exact (stored.unlock k).setPhase (fun same => nomatch same)
  · have noted : State.Kept { s with outcome := Function.update s.outcome k (some value) } := { kept with }
    exact noted.setPhase (fun same => nomatch same)

end State.Kept

end

variable [DecidableEq ν]

theorem State.Kept.get_eq_some (kept : s.Kept) {name : ν} {i : Nat} : s.get name = some i ↔ (name, i) ∈ s.map := by
  unfold State.get
  constructor
  · intro found
    obtain ⟨pair, first, rfl⟩ := Option.map_eq_some_iff.mp found
    have same : pair.1 = name := by simpa using List.find?_some first
    exact same ▸ List.mem_of_find?_eq_some first
  · intro member
    cases found : s.map.find? fun pair => pair.1 = name with
    | none => exact absurd member (by simpa using fun inside => List.find?_eq_none.mp found _ inside (by simp))
    | some pair =>
      have same : pair.1 = name := by simpa using List.find?_some found
      have inside : (name, pair.2) ∈ s.map := same ▸ List.mem_of_find?_eq_some found
      rw [Option.map_some, kept.uniq name pair.2 i inside member]

theorem State.Kept.get_eq_none (kept : s.Kept) {name : ν} (missing : s.get name = none) (i : Nat) :
    (name, i) ∉ s.map := by
  intro member
  rw [kept.get_eq_some.mpr member] at missing
  cases missing

/-- The call has a slot of its name, and everything else is as it was but for the sweep
and the slot that may be new. -/
theorem State.Kept.getOrInsert (kept : s.Kept) {k : Nat} {name : ν} (ttl : Nat) (free : s.slot k = none)
    (begun : s.phase k ≠ .idle) (asks : s.asked k = some name) : (s.getOrInsert k name ttl).Kept := by
  unfold State.getOrInsert
  split
  · rename_i i found
    have member := kept.get_eq_some.mp found
    refine kept.hold free begun asks (kept.named name i member) (fun _ => member) fun full => ?_
    exact absurd (kept.room name i member) (Nat.not_lt.mpr full)
  · rename_i missing
    have absent := kept.get_eq_none missing
    dsimp only
    split_ifs
    · obtain ⟨map, nextPrune, lastPruneAtCap, same, sub, -⟩ := prune_spec s ttl
      have swept := kept.prune ttl
      rw [same] at swept ⊢
      exact swept.insert_hold (fun i member => absent i (sub.subset member)) free begun asks
    · exact kept.insert_hold absent free begun asks

theorem State.Kept.forgetFailed (kept : s.Kept) {k i : Nat} {name : ν} (mine : s.slot k = some i) :
    ({ s with map := if s.get name = some i ∧ s.strongCount i = 2 then s.map.filter fun pair => pair.1 ≠ name
      else s.map }.release k i).Kept := by
  refine kept.release mine ?_ ?_
  · split_ifs
    · exact List.filter_sublist
    · exact List.Sublist.refl _
  · intro n j member gone
    split_ifs at gone with own
    · have same : n = name := by
        by_contra other
        exact gone (List.mem_filter.mpr ⟨member, by simpa using other⟩)
      subst same
      refine ⟨kept.uniq n j i member (kept.get_eq_some.mp own.1), ?_⟩
      -- The map's own reference and the call's are the only two.
      have count : (s.holders i).length = 1 := by
        have two := own.2
        unfold State.strongCount at two
        omega
      obtain ⟨only, single⟩ := List.length_eq_one_iff.mp count
      have holds := (kept.holder k i).mpr mine
      rw [single, List.mem_singleton] at holds
      rw [single, holds]
    · exact absurd member gone

theorem State.Kept.start (kept : s.Kept) {k : Nat} (idle : s.phase k = .idle) (name : ν) :
    (s.start ttl k name).Kept := by
  have asking := kept.ask idle name
  unfold State.start
  split
  · exact asking.begin k 0
  · have waiting : ((s.ask k name).setPhase k .waiting).Kept := asking.setPhase (fun same => nomatch same)
    have begun : ((s.ask k name).setPhase k .waiting).phase k ≠ .idle := by simp [State.setPhase]
    exact waiting.getOrInsert _ (kept.begun k idle) begun (Function.update_self _ _ _)

end Spvirit.Client.Cache
