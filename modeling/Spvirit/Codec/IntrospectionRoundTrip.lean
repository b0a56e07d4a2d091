import Spvirit.Codec.ExpressedCalls

/-! Every descriptor a decoder hands out is parsed back from its encoding by a
fresh decoder with the same limits. -/

namespace Spvirit

open Fallible

section

variable {isBe : Bool}

theorem fieldsNodes_le_length {fs : List FieldDesc}
    (each : ∀ f ∈ fs, typeNodes f.fieldType ≤ (encodeTypeDesc isBe f.fieldType).length) :
    fieldsNodes fs ≤ (encodeFieldDescs isBe fs).length := by
  induction fs with
  | nil => exact Nat.zero_le _
  | cons f fs ih =>
    obtain ⟨head, tail⟩ := List.forall_mem_cons.mp each
    have others := ih tail
    rw [fieldsNodes, encodeFieldDescs, List.length_append, List.length_append]
    omega

/-- A descriptor takes at least one byte for each node of its type. -/
theorem typeNodes_le_length (ft : FieldType) : typeNodes ft ≤ (encodeTypeDesc isBe ft).length := by
  induction ft with
  | struct desc ih | structArray desc ih | union fields ih | unionArray fields ih =>
    have fields := fieldsNodes_le_length ih
    simp only [typeNodes, encodeTypeDesc, List.length_cons, List.length_append]
    omega
  | _ => simp [typeNodes, encodeTypeDesc]

end

/-- A type that some input's budget admitted is admitted on any input that holds
a byte for each of its nodes. -/
theorem nodeCeiling_admits {fields nodes before now : Nat} (admitted : nodes ≤ nodeCeiling fields before)
    (spelled : nodes ≤ now) : nodes ≤ nodeCeiling fields now := by
  unfold nodeCeiling nodesPerByte at *
  omega

namespace PvdDecoder

variable {dec : PvdDecoder}

theorem parseIntrospection_reads {desc : StructureDesc} (expressible : Expressible dec.limits (.structure desc))
    (deep : typeHeight (.structure desc) ≤ dec.limits.maxDepth) (rest : List UInt8)
    (budget : typeNodes (.structure desc)
      ≤ nodeCeiling dec.limits.maxStructFields (0x80 :: encodeStructureDesc dec.isBe desc ++ rest).length) :
    (dec.parseIntrospectionWithLen (0x80 :: encodeStructureDesc dec.isBe desc ++ rest) dec.fresh).1
      = .ok (desc, 1 + (encodeStructureDesc dec.isBe desc).length) := by
  obtain ⟨named, short, within, small, fields⟩ := expressible
  rw [typeHeight] at deep
  rw [typeNodes] at budget
  obtain ⟨fuel, limit⟩ : ∃ fuel, dec.limits.maxDepth = fuel + 1 := ⟨dec.limits.maxDepth - 1, by omega⟩
  -- a field of the structure stands one level below it
  have types : ∀ f ∈ desc.fields, Expressible dec.limits f.fieldType → dec.ReadsAlways fuel (typeNodes f.fieldType)
      (dec.parseTypeDesc dec.limits.maxDepth) (encodeTypeDesc dec.isBe f.fieldType) f.fieldType := by
    intro f member type
    have height := typeHeight_le_fieldsHeight member
    have positive := typeHeight_pos f.fieldType
    obtain ⟨levels, rfl⟩ : ∃ levels, fuel = levels + 1 := ⟨fuel - 1, by omega⟩
    rw [limit]
    exact parseTypeDesc_reads f.fieldType type (levels + 1) levels (by omega) (by omega)
  have body := parseStructureDesc_reads named short within small fields types rest
  have yields : dec.Yields dec.limits.maxDepth (1 + fieldsNodes desc.fields)
      (dec.enter (dec.parseIntrospectionWith (dec.parseIntrospectionFuel fuel)
        (0x80 :: encodeStructureDesc dec.isBe desc ++ rest)))
      (desc, 1 + (encodeStructureDesc dec.isBe desc).length) := by
    rw [limit]
    exact .enter (Yields.charge.bind (Yields.note.bindFree (body.bindThen .pure)))
  have whole := scope_fresh yields budget
  unfold parseIntrospectionWithLen
  rw [limit]
  exact whole

theorem perform_parseIntrospection (data : List UInt8) (c : Cells) :
    ((PublicCall.decode (.parseIntrospection data)).perform dec c).1
      = (dec.parseIntrospectionWithLen data { c with resolved := .nothing }).1.map fun r => .introspection r.1 := by
  rw [PublicCall.perform, Call.answer, parseIntrospection]
  rcases parsed : dec.parseIntrospectionWithLen data { c with resolved := .nothing } with ⟨_ | r, t⟩
  · rw [bind_error (bind_error parsed)]
    rfl
  · have desc : (dec.parseIntrospectionWithLen data >>= fun r => pure r.1) { c with resolved := .nothing }
        = (.ok r.1, t) := bind_ok parsed
    exact congrArg Prod.fst (bind_ok desc)

theorem introspection_returned {calls : List PublicCall} {data : List UInt8} {desc : StructureDesc}
    (returned : ((PublicCall.decode (.parseIntrospection data)).perform dec (dec.after calls)).1
      = .ok (.introspection desc)) :
    Expressible dec.limits (.structure desc) ∧ typeHeight (.structure desc) ≤ dec.limits.maxDepth ∧
      typeNodes (.structure desc) ≤ nodeCeiling dec.limits.maxStructFields data.length := by
  have idle := (@after_reaches dec calls).idle.forget
  have registry : dec.RegistryExpressible { dec.after calls with resolved := .nothing } := after_expressible calls
  rw [perform_parseIntrospection] at returned
  cases parsed : (dec.parseIntrospectionWithLen data { dec.after calls with resolved := .nothing }).1 with
  | error e =>
    rw [parsed] at returned
    cases returned
  | ok r =>
    rw [parsed] at returned
    cases returned
    obtain ⟨settled, heights, nodes⟩ := (parseIntrospectionWithLen_topLevel data idle rfl).2 r parsed
    have total := settled.total
    rw [List.map_singleton, List.sum_singleton] at nodes
    exact ⟨(parseIntrospectionFuel_expresses _ data _ registry).2 r parsed, heights _ (List.mem_singleton_self _),
      nodes.trans total⟩

/-- Types taken from the registry, and those cut short, included. -/
theorem introspection_round_trips {calls : List PublicCall} {data : List UInt8} {desc : StructureDesc}
    (returned : ((PublicCall.decode (.parseIntrospection data)).perform dec (dec.after calls)).1
      = .ok (.introspection desc)) (isBe : Bool) (rest : List UInt8) :
    let other : PvdDecoder := ⟨isBe, dec.limits⟩
    (other.parseIntrospectionWithLen (0x80 :: encodeStructureDesc isBe desc ++ rest) other.fresh).1
      = .ok (desc, 1 + (encodeStructureDesc isBe desc).length) := by
  intro other
  obtain ⟨expressible, deep, budget⟩ := introspection_returned returned
  have spelled := @typeNodes_le_length isBe (.structure desc)
  have longer : (encodeTypeDesc isBe (.structure desc)).length
      ≤ (0x80 :: encodeStructureDesc isBe desc ++ rest).length := by
    simp [encodeTypeDesc, encodeStructureDesc]
  exact @parseIntrospection_reads other desc expressible deep rest (nodeCeiling_admits budget (spelled.trans longer))

/-- An array of structures with a bounded string, read in one byte order and written in the other. -/
theorem introspection_round_trips_nested :
    let dec := new false
    let other : PvdDecoder := ⟨true, dec.limits⟩
    let desc : StructureDesc := ⟨none, [⟨"", .structureArray ⟨none, [⟨"", .boundedString 300⟩]⟩⟩]⟩
    let data := 0x80 :: encodeStructureDesc false desc ++ []
    ((PublicCall.decode (.parseIntrospection data)).perform dec (dec.after [])).1 = .ok (.introspection desc) ∧
      (other.parseIntrospectionWithLen (0x80 :: encodeStructureDesc true desc ++ [7]) other.fresh).1
        = .ok (desc, 1 + (encodeStructureDesc true desc).length) := by
  intro dec other desc data
  have expressible : Expressible dec.limits (.structure desc) := by
    simp [desc, dec, new, DecodeLimits.default, Expressible, FieldsExpressible, Short]
  have parsed := parseIntrospection_reads expressible (by decide) [] (by simp [desc, dec, new, typeNodes, fieldsNodes,
    nodeCeiling, DecodeLimits.default])
  have returned : ((PublicCall.decode (.parseIntrospection data)).perform dec (dec.after [])).1
      = .ok (.introspection desc) := by
    rw [perform_parseIntrospection]
    exact congrArg (Except.map _) parsed
  exact ⟨returned, introspection_round_trips returned true [7]⟩

end PvdDecoder

end Spvirit
