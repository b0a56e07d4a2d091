import Spvirit.Codec.Resolution

/-! Sequences of public decoder calls on arbitrary input. -/

namespace Spvirit

open Fallible

/-- A public decode call. -/
inductive Call where
  | parseFieldDesc (data : List UInt8)
  | parseIntrospection (data : List UInt8)
  | parseIntrospectionWithLen (data : List UInt8)
  | decodeValue (data : List UInt8) (ft : FieldType)
  | decodeStructure (data : List UInt8) (desc : StructureDesc)
  | decodeStructureWithBitset (data : List UInt8) (desc : StructureDesc)
  | decodeMonitorUpdate (data : List UInt8) (desc : StructureDesc)

/-- What a public call returns. -/
inductive Answer where
  | size (value consumed : Nat)
  | string (s : String) (consumed : Nat)
  | fieldDesc (field : FieldDesc) (consumed : Nat)
  | introspection (desc : StructureDesc)
  | introspectionWithLen (desc : StructureDesc) (consumed : Nat)
  | value (v : DecodedValue) (consumed : Nat)
  | update (u : MonitorUpdate)

def Answer.trees : Answer → List FieldType
  | .fieldDesc field _ => [field.fieldType]
  | .introspection desc | .introspectionWithLen desc _ => [.structure desc]
  | .size .. | .string .. | .value .. | .update _ => []

namespace Call

def input : Call → List UInt8
  | .parseFieldDesc data | .parseIntrospection data | .parseIntrospectionWithLen data | .decodeValue data _
  | .decodeStructure data _ | .decodeStructureWithBitset data _ | .decodeMonitorUpdate data _ => data

def answer (dec : PvdDecoder) : Call → DecodeM Answer
  | .parseFieldDesc data => do
    let (field, consumed) ← dec.parseFieldDesc data
    pure (.fieldDesc field consumed)
  | .parseIntrospection data => do
    let desc ← dec.parseIntrospection data
    pure (.introspection desc)
  | .parseIntrospectionWithLen data => do
    let (desc, consumed) ← dec.parseIntrospectionWithLen data
    pure (.introspectionWithLen desc consumed)
  | .decodeValue data ft => do
    let (v, consumed) ← dec.decodeValue data ft
    pure (.value v consumed)
  | .decodeStructure data desc => do
    let (v, consumed) ← dec.decodeStructure data desc
    pure (.value v consumed)
  | .decodeStructureWithBitset data desc => do
    let (v, consumed) ← dec.decodeStructureWithBitset data desc
    pure (.value v consumed)
  | .decodeMonitorUpdate data desc => do
    let u ← dec.decodeMonitorUpdate data desc
    pure (.update u)

def trees (dec : PvdDecoder) (call : Call) : DecodeM (List FieldType) := do
  let answer ← call.answer dec
  pure answer.trees

/-- The history of resolved types starts anew with each call. -/
def run (dec : PvdDecoder) (call : Call) (c : Cells) : Except DecodeError (List FieldType) × Cells :=
  call.trees dec { c with resolved := .nothing }

end Call

namespace PvdDecoder

variable {dec : PvdDecoder} {c : Cells}

/-- The cells after some sequence of calls, each of which succeeded or failed. -/
inductive Reaches (dec : PvdDecoder) : Cells → Prop
  | fresh : dec.Reaches dec.fresh
  | call {c : Cells} (call : Call) : dec.Reaches c → dec.Reaches (call.run dec c).2

/-- What the trees returned by a top-level call must satisfy. -/
def Returned (dec : PvdDecoder) (trees : List FieldType) (total : Nat) : Prop :=
  (∀ ft ∈ trees, typeHeight ft ≤ dec.limits.maxDepth) ∧ (trees.map typeNodes).sum ≤ total

theorem Resolves.returned {ft : FieldType} {depth start total : Nat} (resolved : dec.Resolves depth start ft total) :
    dec.Returned [ft] total := by
  have height := resolved.height
  have nodes := resolved.nodes
  exact ⟨by simpa using by omega, by simpa using by omega⟩

section

variable (data : List UInt8) (idle : dec.Idle c) (nothing : c.resolved = .nothing)

include idle nothing

theorem parseFieldDesc_topLevel :
    dec.TopLevel data.length (dec.parseFieldDesc data) c fun r total => dec.Returned [r.1.fieldType] total :=
  .weaken (.outermost idle nothing fun good => (fieldDescBody_bounded (parseTypeDesc_bounded _) data good).loud)
    le_rfl
    fun _ _ => Resolves.returned

theorem parseIntrospectionWithLen_topLevel :
    dec.TopLevel data.length (dec.parseIntrospectionWithLen data) c fun r total =>
      dec.Returned [.structure r.1] total := by
  unfold parseIntrospectionWithLen
  generalize dec.limits.maxDepth = fuel
  cases fuel with
  | zero => exact .outermost idle nothing fun good => .enter fun _ => .throw (good.atDepth _)
  | succ fuel =>
    exact .weaken (.outermost idle nothing fun good =>
      (parseIntrospectionWith_bounded (parseIntrospectionFuel_bounded fuel) data good).loud) le_rfl fun _ _ => Resolves.returned

theorem decodeValue_topLevel (ft : FieldType) :
    dec.TopLevel data.length (dec.decodeValue data ft) c fun _ _ => True := by
  unfold decodeValue
  generalize dec.limits.maxDepth = fuel
  cases fuel with
  | zero => exact .outermost idle nothing fun good => .enter fun _ => .throw (good.atDepth _)
  | succ fuel =>
    exact .outermost idle nothing fun good => .enter fun _ =>
      decodeValueWith_closed frugal_closed (decodeValueFuel_bounded fuel) data ft _ (good.atDepth _)

theorem decodeStructure_topLevel (desc : StructureDesc) :
    dec.TopLevel data.length (dec.decodeStructure data desc) c fun _ _ => True :=
  .outermost idle nothing fun good => structureBody_closed frugal_closed (decodeValueFuel_bounded _) data desc _ good

theorem decodeStructureWithBitset_topLevel (desc : StructureDesc) :
    dec.TopLevel data.length (dec.decodeStructureWithBitset data desc) c fun _ _ => True := by
  unfold decodeStructureWithBitset
  split
  · exact .throw idle
  · refine .bindExcept idle fun ⟨size, offset⟩ _ => ?_
    dsimp only
    split
    · exact .pure idle nothing
    · refine .bindPure (.weaken (.outermost idle nothing fun good => bitsetBody_closed frugal_closed desc _ good) ?_ fun _ _ => id)
        fun _ _ _ _ => ⟨_, rfl, fun _ _ => trivial⟩
      simp

theorem decodeMonitorUpdate_topLevel (desc : StructureDesc) :
    dec.TopLevel data.length (dec.decodeMonitorUpdate data desc) c fun _ _ => True := by
  refine .bindExcept idle fun ⟨changed, offset⟩ _ => ?_
  refine .bindPure (.weaken (.outermost idle nothing fun good => bitsetBody_closed frugal_closed desc _ good) ?_ fun _ _ => id)
    fun r t _ _ => ?_
  · simp
  · dsimp only
    cases dec.readBitset data (offset + r.2) with
    | ok _ | error _ => exact ⟨_, rfl, fun _ _ => trivial⟩

end

/-- Every call leaves the decoder idle, and what it returns and resolves is within bounds. -/
theorem answer_topLevel (call : Call) (idle : dec.Idle c) (nothing : c.resolved = .nothing) :
    dec.TopLevel call.input.length (call.answer dec) c fun answer total => dec.Returned answer.trees total := by
  have empty : ∀ total, dec.Returned [] total := fun total => ⟨by simp, by simp⟩
  cases call with
  | parseFieldDesc data => exact .map _ (parseFieldDesc_topLevel data idle nothing) fun _ _ => id
  | parseIntrospection data =>
    exact .map _ (.map Prod.fst (parseIntrospectionWithLen_topLevel data idle nothing) fun _ _ => id) fun _ _ => id
  | parseIntrospectionWithLen data => exact .map _ (parseIntrospectionWithLen_topLevel data idle nothing) fun _ _ => id
  | decodeValue data ft => exact .map _ (decodeValue_topLevel data idle nothing ft) fun _ total _ => empty total
  | decodeStructure data desc =>
    exact .map _ (decodeStructure_topLevel data idle nothing desc) fun _ total _ => empty total
  | decodeStructureWithBitset data desc =>
    exact .map _ (decodeStructureWithBitset_topLevel data idle nothing desc) fun _ total _ => empty total
  | decodeMonitorUpdate data desc =>
    exact .map _ (decodeMonitorUpdate_topLevel data idle nothing desc) fun _ total _ => empty total

theorem trees_topLevel (call : Call) (idle : dec.Idle c) (nothing : c.resolved = .nothing) :
    dec.TopLevel call.input.length (call.trees dec) c dec.Returned :=
  .map Answer.trees (answer_topLevel call idle nothing) fun _ _ => id

theorem Idle.forget (idle : dec.Idle c) : dec.Idle { c with resolved := .nothing } :=
  ⟨idle.depth, idle.budgetScope, idle.registry⟩

theorem Reaches.idle (reached : dec.Reaches c) : dec.Idle c := by
  induction reached with
  | fresh => exact ⟨rfl, rfl, fun _ _ _ _ entry => by cases entry⟩
  | call call _ ih => exact (trees_topLevel call ih.forget rfl).1

/-- Registry entries carry their type's measures after any sequence of calls. The
next call, if it succeeds, returns and splices in only trees within the depth
limit, and resolves no more nodes in all than the ceiling for its input. -/
theorem resolution_bounded (reached : dec.Reaches c) :
    (∀ key ft height nodes, c.registry key = some (ft, height, nodes) →
      height = typeHeight ft ∧ nodes = typeNodes ft ∧ height ≤ dec.limits.maxDepth) ∧
    ∀ (call : Call) (trees : List FieldType) (c' : Cells), call.run dec c = (.ok trees, c') →
      (∀ ft ∈ trees ++ c'.resolved.stored ++ c'.resolved.variants, typeHeight ft ≤ dec.limits.maxDepth) ∧
      (trees.map typeNodes).sum ≤ c'.resolved.total ∧
      (c'.resolved.variants.map typeNodes).sum ≤ c'.resolved.total ∧
      c'.resolved.total ≤ nodeCeiling dec.limits.maxStructFields call.input.length := by
  refine ⟨reached.idle.registry, fun call trees c' ran => ?_⟩
  have top := trees_topLevel call reached.idle.forget rfl
  unfold TopLevel at top
  rw [show call.trees dec { c with resolved := .nothing } = (.ok trees, c') from ran] at top
  obtain ⟨settled, returned⟩ := top.2 trees rfl
  refine ⟨fun ft member => ?_, returned.2, settled.variantNodes, settled.total⟩
  rcases List.mem_append.mp member with earlier | variant
  · rcases List.mem_append.mp earlier with tree | stored
    · exact returned.1 ft tree
    · exact settled.stored ft stored
  · exact settled.variants ft variant

/-- A definition, and a reference to it in the next call. -/
theorem resolution_bounded_reference :
    let dec : PvdDecoder := ⟨false, .default⟩
    let c := ((Call.parseFieldDesc [0, 0xFD, 1, 0, 0x22]).run dec dec.fresh).2
    let r := (Call.parseFieldDesc [0, 0xFE, 1, 0]).run dec c
    c.registry 1 = some (.scalar .int32, 1, 1) ∧ r.1 = .ok [.scalar .int32] ∧
      r.2.resolved.total ≤ nodeCeiling 65536 4 := by
  intro dec c r
  have returned : r.1 = .ok [.scalar .int32] := rfl
  have reached : dec.Reaches c := .call (.parseFieldDesc [0, 0xFD, 1, 0, 0x22]) .fresh
  exact ⟨rfl, returned, ((resolution_bounded reached).2 (.parseFieldDesc [0, 0xFE, 1, 0]) _ r.2
    (Prod.ext returned rfl)).2.2.2⟩

end PvdDecoder

end Spvirit
