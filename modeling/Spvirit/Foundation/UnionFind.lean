import Mathlib.Tactic

/-! Union-find over a finite type, with path halving. -/

namespace UnionFind

variable {α : Type}

/-- A chain of so many steps ends in a root. -/
inductive Leads (parent : α → α) : Nat → α → α → Prop
  | root {r : α} : parent r = r → Leads parent 0 r r
  | step {k : Nat} {x r : α} : parent x ≠ x → Leads parent k (parent x) r → Leads parent (k + 1) x r

variable {parent : α → α} {k : Nat} {x r : α}

namespace Leads

theorem is_root (leads : Leads parent k x r) : parent r = r := by
  induction leads with
  | root fixed => exact fixed
  | step _ _ ih => exact ih

theorem of_root (fixed : parent x = x) (leads : Leads parent k x r) : k = 0 ∧ r = x := by
  cases leads with
  | root => exact ⟨rfl, rfl⟩
  | step moves _ => exact absurd fixed moves

theorem unique {k' : Nat} {r' : α} (leads : Leads parent k x r) (leads' : Leads parent k' x r') : k = k' ∧ r = r' := by
  induction leads generalizing k' r' with
  | root fixed =>
    obtain ⟨rfl, rfl⟩ := leads'.of_root fixed
    exact ⟨rfl, rfl⟩
  | step moves _ ih =>
    cases leads' with
    | root fixed => exact absurd fixed moves
    | step _ rest =>
      obtain ⟨rfl, rfl⟩ := ih rest
      exact ⟨rfl, rfl⟩

theorem exists_nodup (leads : Leads parent k x r) :
    ∃ chain : List α, chain.length = k + 1 ∧ chain.Nodup ∧ ∀ y ∈ chain, ∃ i ≤ k, Leads parent i y r := by
  induction leads with
  | @root r fixed => exact ⟨[r], rfl, List.nodup_singleton r, by simpa using Leads.root fixed⟩
  | @step k x r moves rest ih =>
    obtain ⟨chain, length, nodup, below⟩ := ih
    have whole := Leads.step moves rest
    refine ⟨x :: chain, by rw [List.length_cons, length], List.nodup_cons.mpr ⟨fun member => ?_, nodup⟩, ?_⟩
    · obtain ⟨i, le, again⟩ := below x member
      have := (whole.unique again).1
      omega
    · intro y member
      rcases List.mem_cons.mp member with rfl | later
      · exact ⟨k + 1, le_refl _, whole⟩
      · obtain ⟨i, le, leads⟩ := below y later
        exact ⟨i, by omega, leads⟩

theorem lt_card [Fintype α] (leads : Leads parent k x r) : k < Fintype.card α := by
  obtain ⟨chain, length, nodup, _⟩ := leads.exists_nodup
  have := nodup.length_le_card
  omega

end Leads

/-- Every chain ends. -/
def Forest (parent : α → α) : Prop := ∀ x, ∃ k r, Leads parent k x r

/-- Two elements have the same root. -/
def Same (parent : α → α) (x y : α) : Prop := ∃ k k' r, Leads parent k x r ∧ Leads parent k' y r

variable [DecidableEq α]

/-- `parent[x] = parent[parent[x]]`. -/
def halve (parent : α → α) (x : α) : α → α := Function.update parent x (parent (parent x))

/-- The loop of `find`, with a bound on its steps: the root, and the parents it leaves. -/
def find : Nat → (α → α) → α → (α → α) × α
  | 0, parent, x => (parent, x)
  | fuel + 1, parent, x =>
    if parent x = x then (parent, x) else find fuel (halve parent x) (halve parent x x)

/-- Halving shortens chains and keeps their roots. -/
theorem Leads.halve (z : α) (leads : Leads parent k x r) : ∃ k' ≤ k, Leads (halve parent z) k' x r := by
  induction k using Nat.strong_induction_on generalizing x with
  | _ k ih =>
    cases leads with
    | root fixed =>
      refine ⟨0, le_refl _, .root ?_⟩
      by_cases same : r = z
      · subst same
        simp [UnionFind.halve, fixed]
      · simp [UnionFind.halve, same, fixed]
    | @step k _ _ moves rest =>
      by_cases same : x = z
      swap
      · obtain ⟨k', le, leads⟩ := ih k (Nat.lt_succ_self k) rest
        have kept : UnionFind.halve parent z x = parent x := Function.update_of_ne same _ _
        exact ⟨k' + 1, by omega, .step (by rwa [kept]) (by rwa [kept])⟩
      subst same
      have skipped : UnionFind.halve parent x x = parent (parent x) := Function.update_self _ _ _
      -- The grandparent is the parent, if that is a root, or one step further.
      obtain ⟨k', le, leads⟩ : ∃ k' ≤ k, Leads (UnionFind.halve parent x) k' (parent (parent x)) r := by
        cases rest with
        | root fixed =>
          obtain ⟨k', le, leads⟩ := ih 0 (Nat.succ_pos 0) (.root fixed)
          exact ⟨k', le, by rwa [fixed]⟩
        | @step k _ _ _ rest =>
          obtain ⟨k', le, leads⟩ := ih k (by omega) rest
          exact ⟨k', by omega, leads⟩
      by_cases fixed : UnionFind.halve parent x x = x
      · rw [skipped] at fixed
        rw [fixed] at leads
        exact ⟨k', by omega, leads⟩
      · exact ⟨k' + 1, by omega, .step fixed (by rwa [skipped])⟩

theorem find_spec {fuel : Nat} (leads : Leads parent k x r) (enough : k ≤ fuel) :
    (find fuel parent x).2 = r ∧ ∀ y k' r', Leads parent k' y r' → ∃ k'', Leads (find fuel parent x).1 k'' y r' := by
  induction fuel generalizing parent x k with
  | zero =>
    cases leads with
    | root => exact ⟨rfl, fun y k' _ chain => ⟨k', chain⟩⟩
    | step => omega
  | succ fuel ih =>
    unfold find
    split_ifs with fixed
    · exact ⟨(leads.of_root fixed).2.symm, fun y k' _ chain => ⟨k', chain⟩⟩
    · obtain ⟨k', le, halved⟩ := leads.halve x
      have next : ∃ k' ≤ fuel, Leads (halve parent x) k' (halve parent x x) r := by
        cases halved with
        | root root => exact ⟨0, Nat.zero_le _, by rw [root]; exact .root root⟩
        | @step k' _ _ _ rest => exact ⟨k', by omega, rest⟩
      obtain ⟨k', le, rest⟩ := next
      obtain ⟨result, kept⟩ := ih rest le
      refine ⟨result, fun y k' r' chain => ?_⟩
      obtain ⟨k', _, halved⟩ := chain.halve x
      exact kept y k' r' halved

/-- One of two roots is put below the other. -/
def link (parent : α → α) (r r' : α) : α → α := Function.update parent r r'

theorem Leads.link {r₁ r₂ : α} (different : r₁ ≠ r₂) (fixed₁ : parent r₁ = r₁) (fixed₂ : parent r₂ = r₂)
    (leads : Leads parent k x r) : ∃ k', Leads (link parent r₁ r₂) k' x (if r = r₁ then r₂ else r) := by
  have kept {z : α} (other : z ≠ r₁) : UnionFind.link parent r₁ r₂ z = parent z := Function.update_of_ne other _ _
  induction leads with
  | @root r fixed =>
    by_cases same : r = r₁
    · subst same
      rw [if_pos rfl]
      have moved : UnionFind.link parent r r₂ r = r₂ := Function.update_self _ _ _
      exact ⟨1, .step (by rw [moved]; exact different.symm) (by rw [moved]; exact .root ((kept different.symm).trans fixed₂))⟩
    · rw [if_neg same]
      exact ⟨0, .root ((kept same).trans fixed)⟩
  | @step k x r moves rest ih =>
    obtain ⟨k', chain⟩ := ih
    have other : x ≠ r₁ := by
      rintro rfl
      exact moves fixed₁
    exact ⟨k' + 1, .step (by rwa [kept other]) (by rwa [kept other])⟩

variable [Fintype α]

/-- The union of the classes of two elements. -/
def union (parent : α → α) (x y : α) : α → α :=
  let first := find (Fintype.card α) parent x
  let second := find (Fintype.card α) first.1 y
  if first.2 ≠ second.2 then link second.1 first.2 second.2 else second.1

theorem union_roots (forest : Forest parent) (x y : α) :
    ∃ rx ry, (∃ k, Leads parent k x rx) ∧ (∃ k, Leads parent k y ry) ∧
      ∀ z k r, Leads parent k z r → ∃ k', Leads (union parent x y) k' z (if r = rx then ry else r) := by
  obtain ⟨kx, rx, leadsx⟩ := forest x
  obtain ⟨ky, ry, leadsy⟩ := forest y
  obtain ⟨foundx, keptx⟩ := find_spec leadsx leadsx.lt_card.le
  obtain ⟨ky', leadsy'⟩ := keptx y ky ry leadsy
  obtain ⟨foundy, kepty⟩ := find_spec leadsy' leadsy'.lt_card.le
  refine ⟨rx, ry, ⟨kx, leadsx⟩, ⟨ky, leadsy⟩, fun z k r leads => ?_⟩
  obtain ⟨k', leads⟩ := keptx z k r leads
  obtain ⟨k', leads⟩ := kepty z k' r leads
  unfold union
  simp only [foundx, foundy]
  split_ifs with different same same
  · have := leads.link different ((kepty x _ rx (keptx x kx rx leadsx).choose_spec).choose_spec.is_root)
      (kepty y _ ry leadsy').choose_spec.is_root
    rwa [if_pos same] at this
  · have := leads.link different ((kepty x _ rx (keptx x kx rx leadsx).choose_spec).choose_spec.is_root)
      (kepty y _ ry leadsy').choose_spec.is_root
    rwa [if_neg same] at this
  · rw [same, not_not.mp different] at leads
    exact ⟨k', leads⟩
  · exact ⟨k', leads⟩

omit [DecidableEq α] [Fintype α] in
theorem Same.symm {x y : α} (same : Same parent x y) : Same parent y x := by
  obtain ⟨k, k', r, first, second⟩ := same
  exact ⟨k', k, r, second, first⟩

omit [DecidableEq α] [Fintype α] in
theorem Same.trans {x y z : α} (first : Same parent x y) (second : Same parent y z) : Same parent x z := by
  obtain ⟨k, k', r, left, middle⟩ := first
  obtain ⟨l, l', r', middle', right⟩ := second
  obtain ⟨-, rfl⟩ := middle.unique middle'
  exact ⟨k, l', r, left, right⟩

theorem union_forest (forest : Forest parent) (x y : α) : Forest (union parent x y) := by
  obtain ⟨rx, ry, _, _, roots⟩ := union_roots forest x y
  intro z
  obtain ⟨k, r, leads⟩ := forest z
  obtain ⟨k', leads⟩ := roots z k r leads
  exact ⟨k', _, leads⟩

/-- The union of two classes relates what was related, and the two classes. -/
theorem union_same_iff (forest : Forest parent) (x y z w : α) : Same (union parent x y) z w ↔
    Same parent z w ∨ Same parent z x ∧ Same parent y w ∨ Same parent z y ∧ Same parent x w := by
  obtain ⟨rx, ry, ⟨kx, leadsx⟩, ⟨ky, leadsy⟩, roots⟩ := union_roots forest x y
  obtain ⟨kz, rz, leadsz⟩ := forest z
  obtain ⟨kw, rw', leadsw⟩ := forest w
  obtain ⟨kz', leadsz'⟩ := roots z kz rz leadsz
  obtain ⟨kw', leadsw'⟩ := roots w kw rw' leadsw
  have same_iff {a b ra rb : α} {ka kb : Nat} {p : α → α} (first : Leads p ka a ra) (second : Leads p kb b rb) :
      Same p a b ↔ ra = rb := by
    constructor
    · rintro ⟨k, k', r, left, right⟩
      exact (first.unique left).2.trans (second.unique right).2.symm
    · rintro rfl
      exact ⟨ka, kb, ra, first, second⟩
  rw [same_iff leadsz' leadsw', same_iff leadsz leadsw, same_iff leadsz leadsx, same_iff leadsy leadsw,
    same_iff leadsz leadsy, same_iff leadsx leadsw]
  split_ifs with first second second <;> grind

def unions (pairs : List (α × α)) : α → α := pairs.foldl (fun parent pair => union parent pair.1 pair.2) id

omit [DecidableEq α] [Fintype α] in
theorem forest_id : Forest (id : α → α) := fun x => ⟨0, x, .root rfl⟩

theorem unions_forest (pairs : List (α × α)) : Forest (unions pairs) := by
  induction pairs using List.reverseRecOn with
  | nil => exact forest_id
  | append_singleton pairs pair ih =>
    rw [unions, List.foldl_append]
    exact union_forest ih pair.1 pair.2

/-- The classes are the connected components of the pairs. -/
theorem unions_same_iff (pairs : List (α × α)) (x y : α) :
    Same (unions pairs) x y ↔ Relation.EqvGen (fun a b => (a, b) ∈ pairs) x y := by
  induction pairs using List.reverseRecOn generalizing x y with
  | nil =>
    constructor
    · rintro ⟨k, k', r, left, right⟩
      rw [← (left.of_root rfl).2, ← (right.of_root rfl).2]
      exact .refl r
    · intro connected
      have : x = y := by
        induction connected with
        | rel a b member => cases member
        | refl => rfl
        | symm _ _ _ ih => exact ih.symm
        | trans _ _ _ _ _ ih ih' => exact ih.trans ih'
      subst this
      exact ⟨0, 0, x, .root rfl, .root rfl⟩
  | append_singleton pairs pair ih =>
    rw [unions, List.foldl_append]
    have mono {a b : α} (connected : Relation.EqvGen (fun a b => (a, b) ∈ pairs) a b) :
        Relation.EqvGen (fun a b => (a, b) ∈ pairs ++ [pair]) a b :=
      connected.mono fun a b member => List.mem_append_left _ member
    have last : Relation.EqvGen (fun a b => (a, b) ∈ pairs ++ [pair]) pair.1 pair.2 :=
      .rel _ _ (List.mem_append_right _ (List.mem_singleton_self _))
    refine (union_same_iff (unions_forest pairs) pair.1 pair.2 x y).trans ⟨?_, fun connected => ?_⟩
    · rintro (old | ⟨left, right⟩ | ⟨left, right⟩)
      · exact mono ((ih x y).mp old)
      · exact (mono ((ih _ _).mp left)).trans _ _ _ (last.trans _ _ _ (mono ((ih _ _).mp right)))
      · exact (mono ((ih _ _).mp left)).trans _ _ _ ((last.symm _ _).trans _ _ _ (mono ((ih _ _).mp right)))
    · rw [← union_same_iff (unions_forest pairs) pair.1 pair.2 x y]
      induction connected with
      | rel a b member =>
        rw [union_same_iff (unions_forest pairs)]
        rcases List.mem_append.mp member with old | new
        · exact Or.inl ((ih a b).mpr (.rel _ _ old))
        · cases List.mem_singleton.mp new
          exact Or.inr (Or.inl ⟨(ih _ _).mpr (.refl _), (ih _ _).mpr (.refl _)⟩)
      | refl a => exact (union_same_iff (unions_forest pairs) _ _ _ _).mpr (Or.inl ((ih a a).mpr (.refl a)))
      | symm _ _ _ same => exact same.symm
      | trans _ _ _ _ _ first second => exact first.trans second

end UnionFind
