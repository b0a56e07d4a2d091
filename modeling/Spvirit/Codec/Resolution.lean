import Spvirit.Codec.Budget
import Spvirit.Codec.Traversal

/-! Every tree a descriptor resolves to is within the depth limit and the node budget. -/

namespace Spvirit.PvdDecoder

open Fallible

variable {dec : PvdDecoder}

/-- A tree resolved at `depth`, when `start` nodes had been resolved before and `total` have been after. -/
structure Resolves (dec : PvdDecoder) (depth start : Nat) (ft : FieldType) (total : Nat) : Prop where
  height : depth + typeHeight ft ≤ dec.limits.maxDepth
  nodes : start + typeNodes ft ≤ total

structure ResolvesAll (dec : PvdDecoder) (depth start : Nat) (fields : List FieldDesc) (total : Nat) : Prop where
  height : depth + fieldsHeight fields ≤ dec.limits.maxDepth
  nodes : start + fieldsNodes fields ≤ total

section

variable {parse : List UInt8 → DecodeM (FieldType × Nat)} {quiet : Prop} {α : Type} {post : α → Nat → Prop} {c : Cells}

/-- What a descriptor parse must satisfy at any depth. -/
def ParsesTypes (dec : PvdDecoder) (parse : List UInt8 → DecodeM (FieldType × Nat)) : Prop :=
  ∀ data c, dec.InBudget c →
    dec.Bounded True (parse data) c fun r total => dec.Resolves c.depth c.resolved.total r.1 total

section

variable (parses : dec.ParsesTypes parse) (data : List UInt8)

include parses

theorem fieldDescBody_bounded (good : dec.InBudget c) : dec.Bounded True (dec.fieldDescBody parse data) c fun r total =>
      dec.Resolves c.depth c.resolved.total r.1.fieldType total := by
  unfold fieldDescBody
  split
  · exact .throw good
  · refine .bindExcept good fun ⟨name, consumed⟩ _ => ?_
    dsimp only
    split
    · exact .throw good
    · exact .bind _ (parses _ _ good) fun r t keeps fine resolved => .pure fine resolved

theorem parseFieldDescWith_bounded (good : dec.InBudget c) :
    dec.Bounded True (dec.parseFieldDescWith parse data) c fun r total =>
      dec.Resolves c.depth c.resolved.total r.1.fieldType total :=
  .nested good (fieldDescBody_bounded parses data (good.atScope (Nat.succ_pos _)))

theorem parseFields_bounded (count offset : Nat) (good : dec.InBudget c) (deep : c.depth ≤ dec.limits.maxDepth) :
    dec.Bounded True (dec.parseFields parse data count offset) c fun r total =>
      dec.ResolvesAll c.depth c.resolved.total r.1 total := by
  induction count generalizing offset c with
  | zero => exact .pure good ⟨by simpa [fieldsHeight] using deep, by simp [fieldsNodes]⟩
  | succ count ih =>
    rw [parseFields]
    split
    · exact .pure good ⟨by simpa [fieldsHeight] using deep, by simp [fieldsNodes]⟩
    · refine .bind _ (parseFieldDescWith_bounded parses _ good).attempt fun o t keeps fine resolved => ?_
      cases o with
      | none => exact .pure fine ⟨by simpa [fieldsHeight] using deep, by simpa [fieldsNodes] using keeps.grows⟩
      | some r =>
        obtain ⟨height, nodes⟩ := resolved r rfl
        refine .bind _ (ih _ fine (keeps.depth ▸ deep)) fun rest u later fine' more => .pure fine' ⟨?_, ?_⟩
        · have tail := more.height
          rw [keeps.depth] at tail
          simp only [fieldsHeight]
          omega
        · have tail := more.nodes
          simp only [fieldsNodes]
          omega

theorem parseStructureDesc_bounded (good : dec.InBudget c) (deep : c.depth ≤ dec.limits.maxDepth) :
    dec.Bounded True (dec.parseStructureDesc parse data) c fun r total =>
      dec.ResolvesAll c.depth c.resolved.total r.1.fields total := by
  refine .bindExcept good fun ⟨structId, consumed⟩ _ => .bindExcept good fun ⟨count, countConsumed⟩ _ => ?_
  dsimp only
  split
  · exact .throw good
  · exact .bind _ (parseFields_bounded parses _ _ _ good deep) fun r t keeps fine resolved => .pure fine resolved

end

theorem Resolves.leaf {ft : FieldType} {depth start total : Nat} (height : typeHeight ft = 1) (nodes : typeNodes ft = 1)
    (deep : depth < dec.limits.maxDepth) (charged : start < total) : dec.Resolves depth start ft total :=
  ⟨by omega, by omega⟩

theorem ResolvesAll.node {fields : List FieldDesc} {ft : FieldType} {depth start total : Nat}
    (resolved : dec.ResolvesAll (depth + 1) (start + 1) fields total) (height : typeHeight ft = 1 + fieldsHeight fields)
    (nodes : typeNodes ft = 1 + fieldsNodes fields) : dec.Resolves depth start ft total := by
  have h := resolved.height
  have n := resolved.nodes
  exact ⟨by omega, by omega⟩

theorem scalarType_leaf {typeByte : UInt8} {ft : FieldType} (found : scalarType typeByte = .ok ft) :
    typeHeight ft = 1 ∧ typeNodes ft = 1 := by
  unfold scalarType at found
  split at found
  · cases found
    split <;> exact ⟨rfl, rfl⟩
  · split at found
    · cases found
      split <;> exact ⟨rfl, rfl⟩
    · cases found

theorem parseScalarDesc_bounded (typeByte : UInt8) (data : List UInt8) (good : dec.InBudget c) :
    dec.Bounded True (dec.parseScalarDesc typeByte data) c fun r _ => typeHeight r.1 = 1 ∧ typeNodes r.1 = 1 := by
  refine .bind (fun _ _ => True) ?_ fun offset t keeps fine _ =>
    .bindExcept fine fun ft found => .pure fine (scalarType_leaf found)
  unfold boundOffset
  split
  · exact .bindExcept good fun _ _ => .pure good trivial
  · exact .pure good trivial

theorem parseLiteral_bounded (parses : dec.ParsesTypes parse) (typeByte : UInt8) (data : List UInt8)
    (good : dec.InBudget c) {depth start : Nat} (entered : c.depth = depth + 1) (charged : c.resolved.total = start + 1)
    (deep : depth < dec.limits.maxDepth) :
    dec.Bounded True (dec.parseLiteral parse typeByte data) c fun r total => dec.Resolves depth start r.1 total := by
  have more : start < c.resolved.total := by omega
  have body := fun data => parseStructureDesc_bounded parses data good (by omega)
  rw [entered, charged] at body
  unfold parseLiteral
  split
  · exact .pure good (.leaf rfl rfl deep more)
  split
  · refine .bindExcept good fun offset _ => .bind _ (body _) fun r t keeps fine resolved => .pure fine ?_
    split
    · exact resolved.node rfl rfl
    · exact resolved.node rfl rfl
  split
  · refine .bindExcept good fun offset _ => .bind _ (body _) fun r t keeps fine resolved => .pure fine ?_
    split
    · exact resolved.node rfl rfl
    · exact resolved.node rfl rfl
  split
  · exact .pure good (.leaf rfl rfl deep more)
  split
  · exact .pure good (.leaf rfl rfl deep more)
  split
  · exact .bindExcept good fun _ _ => .pure good (.leaf rfl rfl deep more)
  · refine (parseScalarDesc_bounded typeByte data good).weaken fun r total same leaf => ?_
    exact .leaf leaf.1 leaf.2 deep (by omega)

theorem parseTypeDescWith_bounded (parses : dec.ParsesTypes parse) (data : List UInt8) (good : dec.InBudget c)
    {depth : Nat} (entered : c.depth = depth + 1) (deep : depth < dec.limits.maxDepth) :
    dec.Bounded True (dec.parseTypeDescWith parse data) c fun r total =>
      dec.Resolves depth c.resolved.total r.1 total := by
  unfold parseTypeDescWith
  split
  · exact .throw good
  · -- a definition
    refine .bind _ (parses _ _ good) fun r t keeps fine resolved => ?_
    have height := resolved.height
    exact .define fine (by omega) fun u same fine' => .pure fine' ⟨by dsimp only; omega, same ▸ resolved.nodes⟩
  · -- a reference
    refine .bindGet ?_
    split
    · rename_i ft height nodes entry
      obtain ⟨rfl, rfl, bounded⟩ := good.registry _ _ _ _ entry
      have positive := typeHeight_pos ft
      exact .checkHeight fun within => .splice good bounded fun t _ fine charged =>
        .pure fine ⟨by dsimp only; omega, charged.ge⟩
    · exact .throw good
  · split
    · exact .throw good
    · exact .literal good fun t same fine charged => parseLiteral_bounded parses _ _ fine (same.trans entered) charged deep

end

theorem parseTypeDesc_bounded (fuel : Nat) : dec.ParsesTypes (dec.parseTypeDesc fuel) := by
  induction fuel with
  | zero => exact fun data c good => .enter fun deep => .throw (good.atDepth _)
  | succ fuel ih =>
    exact fun data c good => .enter fun deep => parseTypeDescWith_bounded ih data (good.atDepth _) rfl deep

/-- What an introspection parse must satisfy at any depth. -/
def ParsesStructures (dec : PvdDecoder) (parse : List UInt8 → DecodeM (StructureDesc × Nat)) : Prop :=
  ∀ data c, dec.InBudget c → dec.Bounded True (parse data) c fun r total =>
    dec.Resolves c.depth c.resolved.total (.structure r.1) total

theorem parseIntrospectionWith_bounded {parse : List UInt8 → DecodeM (StructureDesc × Nat)}
    (parses : dec.ParsesStructures parse) (data : List UInt8) {c : Cells} (good : dec.InBudget c) :
    dec.Bounded True (dec.enter (dec.parseIntrospectionWith parse data)) c fun r total =>
      dec.Resolves c.depth c.resolved.total (.structure r.1) total := by
  refine .enter fun deep => ?_
  have inner := good.atDepth (c.depth + 1)
  unfold parseIntrospectionWith
  split
  · exact .throw inner
  · refine .literal inner fun t same fine charged => ?_
    have below : t.depth ≤ dec.limits.maxDepth := by rw [same]; exact deep
    refine .bind _ (parseStructureDesc_bounded (parseTypeDesc_bounded _) _ fine below) fun r u keeps fine' resolved => ?_
    rw [same, charged] at resolved
    exact .pure fine' (resolved.node rfl rfl)
  · refine .bind _ (parses _ _ inner) fun r t keeps fine resolved => ?_
    have height := resolved.height
    dsimp only at height
    exact .define fine (by omega) fun u same fine' => .pure fine' ⟨by dsimp only; omega, same ▸ resolved.nodes⟩
  · refine .bindGet ?_
    split
    · rename_i desc height nodes entry
      obtain ⟨rfl, rfl, bounded⟩ := good.registry _ _ _ _ entry
      have positive := typeHeight_pos (.structure desc)
      exact .checkHeight fun within => .splice inner bounded fun t _ fine charged =>
        .pure fine ⟨by dsimp only at within ⊢; omega, charged.ge⟩
    · exact .throw inner
  · split
    · exact .throw inner
    · exact .throw inner

theorem parseIntrospectionFuel_bounded (fuel : Nat) : dec.ParsesStructures (dec.parseIntrospectionFuel fuel) := by
  induction fuel with
  | zero =>
    exact fun data c good => .nested good (.enter fun _ => .throw ((good.atScope (Nat.succ_pos _)).atDepth _))
  | succ fuel ih =>
    exact fun data c good => .nested good (parseIntrospectionWith_bounded ih data (good.atScope (Nat.succ_pos _)))

/-- What a value decode must satisfy; nothing is asked of the value. -/
def DecodesValues (dec : PvdDecoder) (decodeValue : List UInt8 → FieldType → DecodeM (DecodedValue × Nat)) : Prop :=
  ∀ data ft c, dec.InBudget c → dec.Bounded False (decodeValue data ft) c fun _ _ => True

/-- A decode that stays in budget wherever it starts. -/
def Frugal (dec : PvdDecoder) (α : Type) (m : DecodeM α) : Prop :=
  ∀ c, dec.InBudget c → dec.Bounded False m c fun _ _ => True

/-- The tree of a variant just parsed is covered beside those before it. -/
theorem Resolves.covered {ft : FieldType} {depth : Nat} {c t : Cells}
    (resolved : dec.Resolves depth c.resolved.total ft t.resolved.total)
    (good : dec.InBudget c) (keeps : dec.Keeps True c t) :
    (t.resolved.variants.map typeNodes).sum + typeNodes ft ≤ t.resolved.total := by
  have nodes := resolved.nodes
  have before := good.variantNodes
  rw [keeps.variants trivial]
  omega

theorem frugal_closed : dec.Closed dec.Frugal where
  pure _ _ good := .pure good trivial
  ofExcept _ _ good := .ofExcept good fun _ _ => trivial
  bind first next c good := .bind _ (first c good) fun a t _ fine _ => next a t fine
  attempt inner c good := (inner c good).attempt.weaken fun _ _ _ _ => trivial
  scope inner _ good := .nested good (inner _ (good.atScope (Nat.succ_pos _)))
  enter inner _ good := .enter fun _ => inner _ (good.atDepth _)
  variant next c good := by
    refine .bindQuiet (parseTypeDesc_bounded _ _ _ good) fun r t keeps fine resolved => ?_
    have height := resolved.height
    exact .noteVariant fine (by omega) (resolved.covered good keeps) fun u _ _ fine' => next r u fine'

theorem decodeValueFuel_bounded (fuel : Nat) : dec.DecodesValues (dec.decodeValueFuel fuel) :=
  decodeValueFuel_closed frugal_closed fuel

section

variable {c : Cells}

theorem nodeCeiling_mono {fields a b : Nat} (more : a ≤ b) : nodeCeiling fields a ≤ nodeCeiling fields b := by
  unfold nodeCeiling nodesPerByte
  omega

theorem TopLevel.weaken {α : Type} {m : DecodeM α} {post post' : α → Nat → Prop} {short long : Nat}
    (top : dec.TopLevel short m c post) (more : short ≤ long) (implies : ∀ a total, post a total → post' a total) :
    dec.TopLevel long m c post' := by
  refine ⟨top.1, fun a returned => ?_⟩
  obtain ⟨settled, holds⟩ := top.2 a returned
  exact ⟨{ settled with total := settled.total.trans (nodeCeiling_mono more) }, implies _ _ holds⟩

theorem TopLevel.pure {α : Type} {a : α} {inputLen : Nat} (idle : dec.Idle c) (nothing : c.resolved = .nothing) :
    dec.TopLevel inputLen (pure a) c fun _ _ => True := by
  refine ⟨idle, fun _ _ => ⟨⟨?_, ?_, ?_, ?_⟩, trivial⟩⟩ <;> simp [nothing, Resolved.nothing, Resolved.total]

theorem TopLevel.throw {α : Type} {e : DecodeError} {inputLen : Nat} {post : α → Nat → Prop} (idle : dec.Idle c) :
    dec.TopLevel inputLen (throw e) c post :=
  ⟨idle, fun _ returned => by cases returned⟩

theorem TopLevel.bindExcept {α β : Type} {r : Except DecodeError α} {f : α → DecodeM β} {inputLen : Nat}
    {post : β → Nat → Prop} (idle : dec.Idle c) (next : ∀ a, r = .ok a → dec.TopLevel inputLen (f a) c post) :
    dec.TopLevel inputLen (ofExcept r >>= f) c post := by
  cases r with
  | ok a => exact next a rfl
  | error e => exact .throw idle

theorem TopLevel.bindPure {α β : Type} {m : DecodeM α} {f : α → DecodeM β} {inputLen : Nat} {post : α → Nat → Prop}
    {post' : β → Nat → Prop} (top : dec.TopLevel inputLen m c post)
    (last : ∀ a t total, post a total → ∃ r, f a t = (r, t) ∧ ∀ b, r = .ok b → post' b total) :
    dec.TopLevel inputLen (m >>= f) c post' := by
  rcases result : m c with ⟨r, t⟩
  unfold TopLevel at top ⊢
  rw [result] at top
  cases r with
  | ok a =>
    obtain ⟨settled, holds⟩ := top.2 a rfl
    obtain ⟨r, ran, implies⟩ := last a t _ holds
    rw [bind_ok result, ran]
    exact ⟨top.1, fun b returned => ⟨settled, implies b returned⟩⟩
  | error e =>
    rw [bind_error result]
    exact ⟨top.1, fun b returned => by cases returned⟩

theorem TopLevel.map {α β : Type} {m : DecodeM α} {inputLen : Nat} {post : α → Nat → Prop} {post' : β → Nat → Prop}
    (g : α → β) (top : dec.TopLevel inputLen m c post) (implies : ∀ a total, post a total → post' (g a) total) :
    dec.TopLevel inputLen (m >>= fun a => Pure.pure (g a)) c post' :=
  top.bindPure fun a _ total holds => ⟨_, rfl, fun _ same => Except.ok.inj same ▸ implies a total holds⟩

end

end Spvirit.PvdDecoder
