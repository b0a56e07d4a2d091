import Spvirit.Codec.Expressed

/-! Decoding of values leaves the registry expressible: only the type of a
variant is parsed on the way. -/

namespace Spvirit.PvdDecoder

open Fallible

variable {dec : PvdDecoder} {data : List UInt8}

/-- The registry stays expressible; nothing is asked of the result. -/
abbrev Preserves (dec : PvdDecoder) {α : Type} (m : DecodeM α) : Prop := dec.Expresses m fun _ => True

theorem Preserves.of_expresses {α : Type} {m : DecodeM α} {post : α → Prop} (inner : dec.Expresses m post) :
    dec.Preserves m :=
  fun c ok => ⟨(inner c ok).1, fun _ _ => trivial⟩

theorem preserves_closed : dec.Closed fun _ m => dec.Preserves m where
  pure _ := .pure trivial
  ofExcept _ := .ofExcept fun _ _ => trivial
  bind first next := Maintains.bind first fun a _ => next a
  attempt inner := .of_expresses (Maintains.attempt inner)
  scope := .scope
  enter := .enter
  variant next := (parseTypeDesc_expresses _ _).bind fun r _ => (expresses_note _).bind fun _ _ => next r

theorem preserves_map {α β : Type} {m : DecodeM α} (inner : dec.Preserves m) (g : α → β) :
    dec.Preserves (m >>= fun a => pure (g a)) := preserves_closed.bind inner fun _ => preserves_closed.pure _

theorem bitsetBody_preserves (desc : StructureDesc) (bitset : List UInt8) :
    dec.Preserves (dec.decodeStructureWithBitsetBody data desc bitset) :=
  preserves_closed.scope (bitsetBody_closed preserves_closed desc)

theorem decodeStructureWithBitset_preserves (data : List UInt8) (desc : StructureDesc) :
    dec.Preserves (dec.decodeStructureWithBitset data desc) := by
  unfold decodeStructureWithBitset
  split_ifs
  · exact .throw
  · refine preserves_closed.bindExcept fun r => ?_
    dsimp only
    split_ifs
    · exact preserves_closed.pure _
    · exact preserves_map (bitsetBody_preserves desc _) _

theorem answer_preserves (call : Call) : dec.Preserves (call.answer dec) := by
  cases call with
  | parseFieldDesc data =>
    exact preserves_map (.of_expresses (parseFieldDescWith_expresses (parseTypeDesc_expresses _) data)) _
  | parseIntrospection data =>
    exact preserves_map (preserves_map (.of_expresses (parseIntrospectionFuel_expresses _ data)) _) _
  | parseIntrospectionWithLen data => exact preserves_map (.of_expresses (parseIntrospectionFuel_expresses _ data)) _
  | decodeValue data ft => exact preserves_map (decodeValueFuel_closed preserves_closed _ data ft) _
  | decodeStructure data desc => exact preserves_map (decodeStructure_closed preserves_closed data desc) _
  | decodeStructureWithBitset data desc => exact preserves_map (decodeStructureWithBitset_preserves data desc) _
  | decodeMonitorUpdate data desc =>
    exact preserves_map (preserves_closed.bindExcept fun _ => preserves_closed.bind (bitsetBody_preserves desc _)
      fun _ => preserves_closed.bindExcept fun _ => preserves_closed.pure _) _

theorem RegistryExpressible.perform {c : Cells} (ok : dec.RegistryExpressible c) (call : PublicCall) :
    dec.RegistryExpressible (call.perform dec c).2 := by
  cases call with
  | decodeSize _ | decodeString _ => exact (prefixed_cells _ _).symm ▸ ok
  | decode call => exact (answer_preserves call { c with resolved := .nothing } ok).1

/-- Whatever a decoder was given, its registry holds only types the parser can return. -/
theorem after_expressible (calls : List PublicCall) : dec.RegistryExpressible (dec.after calls) := by
  suffices run : ∀ c, dec.RegistryExpressible c →
      dec.RegistryExpressible (calls.foldl (fun c call => (call.perform dec c).2) c) from
    run _ fun _ _ _ _ entry => by cases entry
  induction calls with
  | nil => exact fun c ok => ok
  | cons call calls ih => exact fun c ok => ih _ (ok.perform call)

end Spvirit.PvdDecoder
