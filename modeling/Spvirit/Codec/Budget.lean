import Spvirit.Codec.Decoder

/-! What every decoder computation keeps: the guards, the registry and the node budget. -/

namespace Spvirit

open Fallible

def Resolved.total (r : Resolved) : Nat := r.literals + (r.stored.map typeNodes).sum

namespace PvdDecoder

/-- Every registry entry carries its type's height and node count, and its height is within the limit. -/
def RegistrySound (dec : PvdDecoder) (c : Cells) : Prop :=
  ∀ key ft height nodes, c.registry key = some (ft, height, nodes) →
    height = typeHeight ft ∧ nodes = typeNodes ft ∧ height ≤ dec.limits.maxDepth

/-- The state of a decode in progress that has not been found hostile. -/
structure InBudget (dec : PvdDecoder) (c : Cells) : Prop where
  inScope : 0 < c.budgetScope
  registry : dec.RegistrySound c
  within : c.nodes ≤ c.nodeLimit
  counted : c.resolved.total ≤ c.nodes
  stored : ∀ ft ∈ c.resolved.stored, typeHeight ft ≤ dec.limits.maxDepth
  variants : ∀ ft ∈ c.resolved.variants, typeHeight ft ≤ dec.limits.maxDepth
  variantNodes : (c.resolved.variants.map typeNodes).sum ≤ c.resolved.total

/-- What holds between the cells before and after, whatever the outcome. The
parsing of a descriptor is quiet: it decodes no variant. -/
structure Keeps (dec : PvdDecoder) (quiet : Prop) (c c' : Cells) : Prop where
  depth : c'.depth = c.depth
  budgetScope : c'.budgetScope = c.budgetScope
  registry : dec.RegistrySound c → dec.RegistrySound c'
  nodeLimit : 0 < c.budgetScope → c'.nodeLimit = c.nodeLimit
  grows : c.resolved.total ≤ c'.resolved.total
  variants : quiet → c'.resolved.variants = c.resolved.variants

/-- A computation from `c`, with what its result and the nodes resolved after it must satisfy. -/
def Bounded (dec : PvdDecoder) (quiet : Prop) {α : Type} (m : DecodeM α) (c : Cells) (post : α → Nat → Prop) : Prop :=
  Runs isHostile (dec.Keeps quiet) dec.InBudget m c fun a c' => post a c'.resolved.total

variable {dec : PvdDecoder} {quiet : Prop} {α β : Type}

theorem Keeps.refl (c : Cells) : dec.Keeps quiet c c := ⟨rfl, rfl, id, fun _ => rfl, le_rfl, fun _ => rfl⟩

theorem Keeps.trans {a b c : Cells} (first : dec.Keeps quiet a b) (second : dec.Keeps quiet b c) :
    dec.Keeps quiet a c where
  depth := second.depth.trans first.depth
  budgetScope := second.budgetScope.trans first.budgetScope
  registry := second.registry ∘ first.registry
  nodeLimit inScope := (second.nodeLimit (first.budgetScope ▸ inScope)).trans (first.nodeLimit inScope)
  grows := first.grows.trans second.grows
  variants isQuiet := (second.variants isQuiet).trans (first.variants isQuiet)

section

variable {m : DecodeM α} {f : α → DecodeM β} {c c' : Cells} {post : α → Nat → Prop} {post' : β → Nat → Prop}

theorem InBudget.atDepth (good : dec.InBudget c) (depth : Nat) : dec.InBudget { c with depth := depth } :=
  ⟨good.inScope, good.registry, good.within, good.counted, good.stored, good.variants, good.variantNodes⟩

theorem InBudget.atScope (good : dec.InBudget c) {scope : Nat} (inScope : 0 < scope) :
    dec.InBudget { c with budgetScope := scope } :=
  ⟨inScope, good.registry, good.within, good.counted, good.stored, good.variants, good.variantNodes⟩

namespace Bounded

theorem pure {a : α} (good : dec.InBudget c) (holds : post a c.resolved.total) : dec.Bounded quiet (pure a) c post :=
  Runs.pure .refl good holds

theorem throw {e : DecodeError} (good : dec.InBudget c) : dec.Bounded quiet (throw e : DecodeM α) c post :=
  Runs.throw .refl good

theorem ofExcept {r : Except DecodeError α} (good : dec.InBudget c) (holds : ∀ a, r = .ok a → post a c.resolved.total) :
    dec.Bounded quiet (ofExcept r) c post :=
  Runs.ofExcept .refl good holds

theorem bind (post : α → Nat → Prop) (first : dec.Bounded quiet m c post)
    (next : ∀ a t, dec.Keeps quiet c t → dec.InBudget t → post a t.resolved.total → dec.Bounded quiet (f a) t post') :
    dec.Bounded quiet (m >>= f) c post' :=
  Runs.bind Keeps.trans first next

theorem bindExcept {r : Except DecodeError α} (good : dec.InBudget c)
    (next : ∀ a, r = .ok a → dec.Bounded quiet (f a) c post') : dec.Bounded quiet (Fallible.ofExcept r >>= f) c post' := by
  cases r with
  | ok a => exact next a rfl
  | error e => exact Bounded.throw good

theorem attempt (runs : dec.Bounded quiet m c post) :
    dec.Bounded quiet (attempt isHostile m) c fun o total => ∀ a, o = some a → post a total :=
  Runs.attempt runs

theorem weaken {post' : α → Nat → Prop} (runs : dec.Bounded quiet m c post)
    (implies : ∀ a total, c.resolved.total ≤ total → post a total → post' a total) : dec.Bounded quiet m c post' :=
  Runs.weaken runs fun a _ keeps _ holds => implies a _ keeps.grows holds

theorem loud (runs : dec.Bounded quiet m c post) : dec.Bounded False m c post :=
  ⟨{ runs.moves with variants := False.elim }, runs.meets⟩

theorem bindQuiet (first : dec.Bounded True m c post)
    (next : ∀ a t, dec.Keeps True c t → dec.InBudget t → post a t.resolved.total → dec.Bounded False (f a) t post') :
    dec.Bounded False (m >>= f) c post' := by
  rcases result : m c with ⟨r, t⟩
  obtain ⟨keeps, meets⟩ := first.of_eq result
  have moves : dec.Keeps False c t := { keeps with variants := False.elim }
  cases r with
  | ok a =>
    rcases rest : f a t with ⟨r', u⟩
    obtain ⟨later, ends⟩ := (next a t keeps meets.1 meets.2).of_eq rest
    exact runs_of_eq ((bind_ok result).trans rest) (moves.trans later) ends
  | error e => exact runs_of_eq (bind_error result) moves meets

end Bounded

/-- The depth guard: inside it the depth is one more and within the limit. -/
theorem Bounded.enter
    (inner : c.depth < dec.limits.maxDepth → dec.Bounded quiet m { c with depth := c.depth + 1 } post) :
    dec.Bounded quiet (dec.enter m) c post := by
  rcases Nat.lt_or_ge c.depth dec.limits.maxDepth with deep | tooDeep
  · rcases result : m { c with depth := c.depth + 1 } with ⟨r, t⟩
    obtain ⟨keeps, meets⟩ := (inner deep).of_eq result
    have entered : dec.enter m c = (r, { t with depth := t.depth - 1 }) := by
      rw [PvdDecoder.enter, if_neg (by omega), result]
    refine runs_of_eq entered { keeps with depth := ?_ } ?_
    · have same : t.depth = c.depth + 1 := keeps.depth
      simp [same]
    · cases r with
      | ok a => exact ⟨meets.1.atDepth _, meets.2⟩
      | error e => exact meets.imp_right fun fine => fine.atDepth _
  · have exceeded : dec.enter m c = (.error (.depthExceeded (c.depth + 1) dec.limits.maxDepth), c) := by
      rw [PvdDecoder.enter, if_pos (by omega)]
    exact runs_of_eq exceeded (.refl c) (Or.inl rfl)

theorem Bounded.nested (good : dec.InBudget c) {inputLen : Nat}
    (inner : dec.Bounded quiet m { c with budgetScope := c.budgetScope + 1 } post) :
    dec.Bounded quiet (dec.nodeBudgetScope inputLen m) c post := by
  have inScope := good.inScope
  rcases result : m { c with budgetScope := c.budgetScope + 1 } with ⟨r, t⟩
  obtain ⟨keeps, meets⟩ := inner.of_eq result
  have ran : dec.nodeBudgetScope inputLen m c = (r, { t with budgetScope := t.budgetScope - 1 }) := by
    rw [nodeBudgetScope, if_neg (by omega), result]
  have same : t.budgetScope = c.budgetScope + 1 := keeps.budgetScope
  refine runs_of_eq ran
    { keeps with budgetScope := by simp [same], nodeLimit := fun _ => keeps.nodeLimit (Nat.succ_pos _) } ?_
  have left : 0 < t.budgetScope - 1 := by omega
  cases r with
  | ok a => exact ⟨meets.1.atScope left, meets.2⟩
  | error e => exact meets.imp_right fun fine => fine.atScope left

/-- The cells at the start of a top-level scope. -/
def opened (dec : PvdDecoder) (inputLen : Nat) (c : Cells) : Cells :=
  { c with nodes := 0, nodeLimit := nodeCeiling dec.limits.maxStructFields inputLen, budgetScope := 1 }

theorem opened_inBudget (sound : dec.RegistrySound c) (nothing : c.resolved = .nothing) (inputLen : Nat) :
    dec.InBudget (dec.opened inputLen c) := by
  refine ⟨Nat.one_pos, sound, Nat.zero_le _, ?_, ?_, ?_, ?_⟩ <;>
    simp [opened, nothing, Resolved.nothing, Resolved.total]

/-- The cells between calls. -/
structure Idle (dec : PvdDecoder) (c : Cells) : Prop where
  depth : c.depth = 0
  budgetScope : c.budgetScope = 0
  registry : dec.RegistrySound c

/-- What a top-level call over `inputLen` bytes has resolved when it succeeds. -/
structure Settled (dec : PvdDecoder) (inputLen : Nat) (c : Cells) : Prop where
  total : c.resolved.total ≤ nodeCeiling dec.limits.maxStructFields inputLen
  stored : ∀ ft ∈ c.resolved.stored, typeHeight ft ≤ dec.limits.maxDepth
  variants : ∀ ft ∈ c.resolved.variants, typeHeight ft ≤ dec.limits.maxDepth
  variantNodes : (c.resolved.variants.map typeNodes).sum ≤ c.resolved.total

/-- A top-level call leaves the decoder idle, and what it resolves is within bounds if it succeeds. -/
def TopLevel (dec : PvdDecoder) (inputLen : Nat) (m : DecodeM α) (c : Cells) (post : α → Nat → Prop) : Prop :=
  dec.Idle (m c).2 ∧ ∀ a, (m c).1 = .ok a → dec.Settled inputLen (m c).2 ∧ post a (m c).2.resolved.total

theorem TopLevel.outermost {inputLen : Nat} (idle : dec.Idle c) (nothing : c.resolved = .nothing)
    (inner : dec.InBudget (dec.opened inputLen c) → dec.Bounded False m (dec.opened inputLen c) post) :
    dec.TopLevel inputLen (dec.nodeBudgetScope inputLen m) c post := by
  have runs := inner (opened_inBudget idle.registry nothing inputLen)
  rcases result : m (dec.opened inputLen c) with ⟨r, t⟩
  obtain ⟨keeps, meets⟩ := runs.of_eq result
  have ran : dec.nodeBudgetScope inputLen m c = (r, { t with budgetScope := t.budgetScope - 1 }) := by
    rw [nodeBudgetScope, if_pos idle.budgetScope]
    simp only [idle.budgetScope, Nat.zero_add]
    rw [opened] at result
    rw [result]
  have scope : t.budgetScope = 1 := keeps.budgetScope
  have limit : t.nodeLimit = nodeCeiling dec.limits.maxStructFields inputLen := keeps.nodeLimit Nat.one_pos
  unfold TopLevel
  rw [ran]
  refine ⟨⟨keeps.depth.trans idle.depth, by simp [scope], keeps.registry idle.registry⟩, fun a returned => ?_⟩
  obtain rfl : r = .ok a := returned
  have good := meets.1
  exact ⟨⟨good.counted.trans (limit ▸ good.within), good.stored, good.variants, good.variantNodes⟩, meets.2⟩

variable {n : Nat} {ft : FieldType}

theorem chargeNodes_ok (enough : c.nodes + n ≤ c.nodeLimit) :
    chargeNodes n c = (.ok (), { c with nodes := c.nodes + n }) := by
  simp [chargeNodes, enough]

theorem chargeNodes_exceeded (tooMany : c.nodeLimit < c.nodes + n) :
    chargeNodes n c = (.error (.malformed nodeBudgetExceeded), { c with nodes := c.nodes + n }) := by
  simp [chargeNodes, tooMany]

/-- A computation that first moves the cells and then goes on as another. -/
theorem Bounded.after {prog : DecodeM α} {t : Cells} (continues : prog c = m t) (keeps : dec.Keeps quiet c t)
    (rest : dec.Bounded quiet m t post) : dec.Bounded quiet prog c post := by
  rcases result : m t with ⟨r, u⟩
  obtain ⟨moves, meets⟩ := rest.of_eq result
  exact runs_of_eq (continues.trans result) (keeps.trans moves) meets

theorem Bounded.bindGet {f : Cells → DecodeM α} (rest : dec.Bounded quiet (f c) c post) :
    dec.Bounded quiet (Fallible.get >>= f) c post :=
  after (m := f c) (t := c) rfl (.refl c) rest

/-- A tree spliced in passes the check only if it stays within the depth limit. -/
theorem Bounded.checkHeight {height : Nat}
    (next : c.depth + height - 1 ≤ dec.limits.maxDepth → dec.Bounded quiet m c post) :
    dec.Bounded quiet (dec.checkResolvedHeight height >>= fun _ => m) c post := by
  rcases Nat.lt_or_ge dec.limits.maxDepth (c.depth + height - 1) with tooDeep | deep
  · have failed : dec.checkResolvedHeight height c =
        (.error (.depthExceeded (c.depth + height - 1) dec.limits.maxDepth), c) := by
      simp [checkResolvedHeight, tooDeep]
    exact runs_of_eq (bind_error failed) (.refl c) (Or.inl rfl)
  · have passed : dec.checkResolvedHeight height c = (.ok (), c) := by simp [checkResolvedHeight, Nat.not_lt.mpr deep]
    exact after (bind_ok passed) (.refl c) (next deep)

theorem InBudget.charged {f : Resolved → Resolved} (good : dec.InBudget c) (enough : c.nodes + n ≤ c.nodeLimit)
    (total : (f c.resolved).total = c.resolved.total + n) (variants : (f c.resolved).variants = c.resolved.variants)
    (stored : ∀ ft ∈ (f c.resolved).stored, typeHeight ft ≤ dec.limits.maxDepth) :
    dec.InBudget { c with nodes := c.nodes + n, resolved := f c.resolved } := by
  have counted := good.counted
  refine ⟨good.inScope, good.registry, enough, ?_, stored, ?_, ?_⟩
  · simp only [total]
    omega
  · simpa only [variants] using good.variants
  · simpa only [variants, total] using good.variantNodes.trans (Nat.le_add_right _ n)

theorem Bounded.charge {f : Resolved → Resolved} (good : dec.InBudget c)
    (total : (f c.resolved).total = c.resolved.total + n) (variants : (f c.resolved).variants = c.resolved.variants)
    (stored : ∀ ft ∈ (f c.resolved).stored, typeHeight ft ≤ dec.limits.maxDepth)
    (next : ∀ t, t.depth = c.depth → dec.InBudget t → t.resolved.total = c.resolved.total + n →
      dec.Bounded quiet m t post) :
    dec.Bounded quiet (chargeNodes n >>= fun _ => note f >>= fun _ => m) c post := by
  rcases Nat.lt_or_ge c.nodeLimit (c.nodes + n) with tooMany | enough
  · exact runs_of_eq (bind_error (chargeNodes_exceeded tooMany))
      ⟨rfl, rfl, id, fun _ => rfl, le_rfl, fun _ => rfl⟩ (Or.inl rfl)
  · let t := { c with nodes := c.nodes + n, resolved := f c.resolved }
    have keeps : dec.Keeps quiet c t :=
      ⟨rfl, rfl, id, fun _ => rfl, by simp only [t, total]; omega, fun _ => variants⟩
    refine after (t := t) ?_ keeps (next t rfl (good.charged enough total variants stored) total)
    rw [bind_ok (chargeNodes_ok enough)]
    rfl

theorem Bounded.literal (good : dec.InBudget c)
    (next : ∀ t, t.depth = c.depth → dec.InBudget t → t.resolved.total = c.resolved.total + 1 →
      dec.Bounded quiet m t post) :
    dec.Bounded quiet (chargeNodes 1 >>= fun _ => noteLiteral >>= fun _ => m) c post := by
  refine charge good ?_ rfl good.stored next
  simp only [Resolved.total]
  omega

theorem Bounded.splice (good : dec.InBudget c) (height : typeHeight ft ≤ dec.limits.maxDepth)
    (next : ∀ t, t.depth = c.depth → dec.InBudget t → t.resolved.total = c.resolved.total + typeNodes ft →
      dec.Bounded quiet m t post) :
    dec.Bounded quiet (chargeNodes (typeNodes ft) >>= fun _ => noteStored ft >>= fun _ => m) c post := by
  refine charge good ?_ rfl ?_ next
  · simp only [Resolved.total, List.map_append, List.sum_append, List.map_cons, List.map_nil, List.sum_singleton]
    omega
  · intro other member
    rcases List.mem_append.mp member with before | here
    · exact good.stored other before
    · rwa [List.mem_singleton.mp here]

theorem Bounded.define {key : UInt16} (good : dec.InBudget c)
    (height : typeHeight ft ≤ dec.limits.maxDepth)
    (next : ∀ t, t.resolved = c.resolved → dec.InBudget t → dec.Bounded quiet m t post) :
    dec.Bounded quiet (register key ft >>= fun _ => m) c post := by
  let t := { c with registry := Function.update c.registry key (some (ft, typeHeight ft, typeNodes ft)) }
  have sound : dec.RegistrySound c → dec.RegistrySound t := by
    intro before other found h n entry
    by_cases same : other = key
    · subst same
      simp only [t, Function.update_self, Option.some.injEq, Prod.mk.injEq] at entry
      obtain ⟨rfl, rfl, rfl⟩ := entry
      exact ⟨rfl, rfl, height⟩
    · simp only [t, Function.update_of_ne same] at entry
      exact before other found h n entry
  have keeps : dec.Keeps quiet c t := ⟨rfl, rfl, sound, fun _ => rfl, le_rfl, fun _ => rfl⟩
  exact after (t := t) rfl keeps (next t rfl ⟨good.inScope, sound good.registry, good.within, good.counted, good.stored,
    good.variants, good.variantNodes⟩)

theorem InBudget.noted (good : dec.InBudget c) (height : typeHeight ft ≤ dec.limits.maxDepth)
    (covered : (c.resolved.variants.map typeNodes).sum + typeNodes ft ≤ c.resolved.total) :
    dec.InBudget { c with resolved := { c.resolved with variants := c.resolved.variants ++ [ft] } } := by
  refine ⟨good.inScope, good.registry, good.within, good.counted, good.stored, ?_, ?_⟩
  · intro other member
    rcases List.mem_append.mp member with before | here
    · exact good.variants other before
    · rwa [List.mem_singleton.mp here]
  · simpa [Resolved.total] using covered

theorem Bounded.noteVariant (good : dec.InBudget c)
    (height : typeHeight ft ≤ dec.limits.maxDepth)
    (covered : (c.resolved.variants.map typeNodes).sum + typeNodes ft ≤ c.resolved.total)
    (next : ∀ t, dec.Keeps False c t → t.resolved.total = c.resolved.total → dec.InBudget t →
      dec.Bounded False m t post) : dec.Bounded False (noteVariant ft >>= fun _ => m) c post := by
  let t := { c with resolved := { c.resolved with variants := c.resolved.variants ++ [ft] } }
  have keeps : dec.Keeps False c t := ⟨rfl, rfl, id, fun _ => rfl, le_rfl, False.elim⟩
  exact after (t := t) rfl keeps (next t keeps rfl (good.noted height covered))

end

end PvdDecoder

end Spvirit
