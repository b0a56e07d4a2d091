import Spvirit.Codec.IntrospectionRoundTrip
import Spvirit.Payload.PvRequestPaths

/-! A request read from the bytes it was written as: the fields and the options. -/

namespace Spvirit

open PvdDecoder Fallible

/-- The limits of the decoder that reads requests: on fields, depth and nodes, and on the
length of names. -/
structure WithinLimits (desc : StructureDesc) : Prop where
  expressible : Expressible .default (.structure desc)
  deep : typeHeight (.structure desc) ≤ DecodeLimits.default.maxDepth
  nodes : typeNodes (.structure desc) ≤ maxDecodeNodes

variable {isBe : Bool}

theorem pvRequestIntrospection_eq {body : List UInt8} {desc : StructureDesc} {n : Nat}
    (parsed : ((new isBe).parseIntrospectionWithLen body (new isBe).fresh).1 = .ok (desc, n)) (present : body ≠ []) :
    pvRequestIntrospection body isBe = some desc := by
  rw [pvRequestIntrospection, if_neg (by simpa using present), parseIntrospection]
  rcases result : (new isBe).parseIntrospectionWithLen body (new isBe).fresh with ⟨r, c⟩
  rw [result] at parsed
  obtain rfl : r = .ok (desc, n) := parsed
  rw [bind_ok result]
  rfl

theorem WithinLimits.parsed {desc : StructureDesc} (within : WithinLimits desc) (rest : List UInt8) :
    ((new isBe).parseIntrospectionWithLen (0x80 :: encodeStructureDesc isBe desc ++ rest) (new isBe).fresh).1
      = .ok (desc, 1 + (encodeStructureDesc isBe desc).length) := by
  refine @parseIntrospection_reads (new isBe) desc within.expressible within.deep rest ?_
  have spelled := @typeNodes_le_length isBe (.structure desc)
  have longer : (encodeTypeDesc isBe (.structure desc)).length
      ≤ (0x80 :: encodeStructureDesc isBe desc ++ rest).length := by
    simp [encodeTypeDesc, encodeStructureDesc]
  have nodes := within.nodes
  simp only [new] at *
  unfold nodeCeiling nodesPerByte
  omega

theorem requestOptions_pvRequestDesc {options : List (String × String)} (present : options ≠ []) (fields : List String) :
    requestOptions (pvRequestDesc fields options) = some ⟨none, options.map fun o => ⟨o.1, .string⟩⟩ := by
  rw [requestOptions, pvRequestDesc, optionFields, if_neg (by simpa using present)]
  rfl

theorem decodeOptionValues_pushString (options : List (String × String))
    (short : ∀ o ∈ options, (utf8 o.2).length < 2 ^ 32) (rest : List UInt8) :
    decodeOptionValues isBe (options.map fun o => ⟨o.1, .string⟩)
      (options.flatMap (fun o => pushString o.2 isBe) ++ rest) = some options := by
  induction options with
  | nil => rfl
  | cons o others ih =>
    obtain ⟨head, tail⟩ := List.forall_mem_cons.mp short
    rw [List.map_cons, List.flatMap_cons, List.append_assoc, decodeOptionValues]
    simp only [decodeStringLossy_pushString head, Option.bind_eq_bind, Option.bind_some, List.drop_left, ih tail]

theorem decodePvRequestOptions_eq {fields : List String} {options : List (String × String)} (present : options ≠ [])
    (within : WithinLimits (pvRequestDesc fields options)) :
    decodePvRequestOptions (encodePvRequestWithOptions fields options isBe) isBe =
      decodeOptionValues isBe (options.map fun o => ⟨o.1, .string⟩) (options.flatMap fun o => pushString o.2 isBe) := by
  have parsed := @WithinLimits.parsed isBe _ within (options.flatMap fun o => pushString o.2 isBe)
  have behind : ∀ (bytes rest : List UInt8), (0x80 :: bytes ++ rest).drop (1 + bytes.length) = rest := by
    intro bytes rest
    rw [List.cons_append, Nat.add_comm, List.drop_succ_cons, List.drop_left]
  rw [decodePvRequestOptions, encodePvRequestWithOptions, pvRequestIntrospection_eq parsed (by simp)]
  simp only [Option.bind_eq_bind, Option.bind_some, requestOptions_pvRequestDesc present]
  rw [if_neg (by simp only [List.length_append, List.length_cons]; omega), behind]

/-- A request gives back fields that filter every descriptor like those it was made from,
and its options. -/
theorem pvRequest_round_trips (fields : List String) (options : List (String × String)) (isBe : Bool)
    (some_path : ∃ f ∈ fields, pathParts f ≠ []) (within : WithinLimits (pvRequestDesc fields options))
    (short : ∀ o ∈ options, (utf8 o.2).length < 2 ^ 32) :
    (∃ others, decodePvRequestFields (encodePvRequestWithOptions fields options isBe) isBe = some others ∧
      ∀ d, filterStructureDesc d others = filterStructureDesc d fields) ∧
    (options ≠ [] → decodePvRequestOptions (encodePvRequestWithOptions fields options isBe) isBe = some options) := by
  constructor
  · refine ⟨requestPaths fields, ?_, filter_requestPaths some_path⟩
    have parsed := @WithinLimits.parsed isBe _ within (options.flatMap fun o => pushString o.2 isBe)
    rw [decodePvRequestFields, encodePvRequestWithOptions, pvRequestIntrospection_eq parsed (by simp)]
    have found : structureNamed "field" (pvRequestDesc fields options).fields
        = some ⟨none, pathTreeToFieldDescs (buildPathTree fields)⟩ := rfl
    simp only [Option.bind_eq_bind, Option.bind_some, found]
    have paths : (requestPaths fields).isEmpty = false := by simpa using requestPaths_ne_nil some_path
    exact if_neg (by rw [requestPaths] at paths; simp [paths])
  · intro present
    rw [decodePvRequestOptions_eq present within, ← List.append_nil (options.flatMap _),
      decodeOptionValues_pushString options short]

theorem buildPathTree_letter : buildPathTree ["a"] = .node false [("a", .node true [])] := by
  have parts : pathParts "a" = ["a"] := by
    rw [pathParts, SplitOn.splitOn_dot]
    decide
  rw [buildPathTree, List.foldl_cons, parts]
  rfl

theorem withinLimits_letter (value : String) : WithinLimits (pvRequestDesc ["a"] [("k", value)]) := by
  have desc : pvRequestDesc ["a"] [("k", value)] = ⟨none, [⟨"field", .structure ⟨none, [⟨"a", .structure ⟨none, []⟩⟩]⟩⟩,
      ⟨"record", .structure ⟨none, [⟨"_options", .structure ⟨none, [⟨"k", .string⟩]⟩⟩]⟩⟩]⟩ := by
    rw [pvRequestDesc, buildPathTree_letter]
    rfl
  rw [desc]
  refine ⟨?_, by decide, by decide⟩
  simp only [Expressible, FieldsExpressible, Short]
  decide

theorem pathParts_letter : pathParts "a" ≠ [] := by
  rw [pathParts, SplitOn.splitOn_dot]
  decide

theorem pvRequest_round_trips_letter : WithinLimits (pvRequestDesc ["a"] [("k", "v")]) ∧
    (∃ others, decodePvRequestFields (encodePvRequestWithOptions ["a"] [("k", "v")] true) true = some others ∧
      ∀ d, filterStructureDesc d others = filterStructureDesc d ["a"]) ∧
    ([("k", "v")] ≠ [] →
      decodePvRequestOptions (encodePvRequestWithOptions ["a"] [("k", "v")] true) true = some [("k", "v")]) := by
  have small : ∀ o ∈ [("k", "v")], (utf8 o.2).length < 2 ^ 32 := by decide
  exact ⟨withinLimits_letter "v", pvRequest_round_trips ["a"] [("k", "v")] true ⟨"a", by simp, pathParts_letter⟩
    (withinLimits_letter "v") small⟩

/-- An option whose length does not fit its prefix is read as empty. -/
def longOption : String := String.ofList (List.replicate (2 ^ 32) 'a')

theorem longOption_length : (utf8 longOption).length = 2 ^ 32 := utf8_replicate _

/-- The descriptor is well within the limits, but the value of the option comes back empty. -/
theorem pvRequest_loses_long_option : WithinLimits (pvRequestDesc ["a"] [("k", longOption)]) ∧
    decodePvRequestOptions (encodePvRequestWithOptions ["a"] [("k", longOption)] true) true ≠
      some [("k", longOption)] := by
  have within := withinLimits_letter longOption
  refine ⟨within, ?_⟩
  have read := @decodeStringLossy_long longOption true longOption_length []
  have present : longOption ≠ "" := by
    intro empty
    have length := longOption_length
    rw [empty, utf8_empty, List.length_nil] at length
    omega
  rw [decodePvRequestOptions_eq (List.cons_ne_nil _ _) within, List.map_singleton, List.flatMap_singleton,
    decodeOptionValues]
  rw [List.append_nil] at read
  simp only [read, Option.bind_eq_bind, Option.bind_some, decodeOptionValues, ne_eq, Option.some.injEq, List.cons.injEq,
    Prod.mk.injEq, true_and, and_true]
  exact present.symm

end Spvirit
