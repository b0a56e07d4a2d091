import Spvirit.Codec.Equality
import Spvirit.Payload.PvRequestRoundTrip

/-! Where the options of a request are read from, which need not be where the descriptor sent ends. -/

namespace Spvirit

open PvdDecoder Fallible ByteOrder

/-- The bytes are the string with its size, in the short form or in the long one. -/
def EncodesString (isBe : Bool) (s : String) (bytes : List UInt8) : Prop :=
  (utf8 s).length < 2 ^ 32 ∧
    (bytes = pushString s isBe ∨ bytes = 0xFE :: toBytes isBe 4 (utf8 s).length ++ utf8 s)

def EncodesStrings (isBe : Bool) : List String → List UInt8 → Prop
  | [], _ => True
  | s :: rest, bytes => ∃ first more, EncodesString isBe s first ∧ bytes = first ++ more ∧ EncodesStrings isBe rest more

/-- Where the values begin if the descriptor is encoded as this side does it. -/
def ownLength (desc : StructureDesc) (isBe : Bool) : Nat := 1 + (encodeStructureDesc isBe desc).length

variable {isBe : Bool}

theorem EncodesString.read {s : String} {bytes : List UInt8} (encodes : EncodesString isBe s bytes) (rest : List UInt8) :
    decodeStringLossy (bytes ++ rest) isBe = some (s, bytes.length) := by
  obtain ⟨small, rfl | rfl⟩ := encodes
  · exact decodeStringLossy_pushString small rest
  · have size : decodeSizePrefixed (0xFE :: toBytes isBe 4 (utf8 s).length ++ utf8 s ++ rest) isBe
        = .ok ((utf8 s).length, 5) := by
      have word : ofBytes isBe ((toBytes isBe 4 (utf8 s).length ++ (utf8 s ++ rest)).take 4) = (utf8 s).length := by
        rw [List.take_left' (toBytes_length isBe 4 _), ofBytes_toBytes small]
      have tag : ¬ (0xFE : UInt8) = 0xFF ∧ ¬ (0xFE : UInt8) < 254 := by decide
      rw [List.cons_append, List.cons_append, List.append_assoc, decodeSizePrefixed, if_neg tag.1, if_neg tag.2,
        if_neg (by simp only [List.length_cons, List.length_append, toBytes_length]; omega), word]
    have header : (0xFE :: toBytes isBe 4 (utf8 s).length).length = 5 := by rw [List.length_cons, toBytes_length]
    rw [decodeStringLossy, size]
    dsimp only
    split_ifs with empty short
    · obtain rfl := utf8_eq_nil.mp (List.length_eq_zero_iff.mp empty)
      simp
    · simp only [List.length_append, header] at short
      omega
    · have body : ((0xFE :: toBytes isBe 4 (utf8 s).length ++ utf8 s ++ rest).drop 5).take (utf8 s).length = utf8 s := by
        rw [← header, List.append_assoc, List.drop_left, List.take_left]
      rw [body, fromUtf8Lossy_utf8, List.length_append, header]

theorem decodeOptionValues_encoded {fields : List FieldDesc} {strings : List String} {bytes : List UInt8}
    (text : ∀ f ∈ fields, f.fieldType = .string) (count : strings.length = fields.length)
    (encodes : EncodesStrings isBe strings bytes) :
    decodeOptionValues isBe fields bytes = some ((fields.map FieldDescOf.name).zip strings) := by
  induction fields generalizing strings bytes with
  | nil => rfl
  | cons f fs ih =>
    obtain ⟨s, rest, rfl⟩ := List.exists_cons_of_length_eq_add_one count
    obtain ⟨head, tail⟩ := List.forall_mem_cons.mp text
    obtain ⟨first, more, here, rfl, later⟩ := encodes
    have others := ih tail (by simpa using count) later
    rw [decodeOptionValues, head]
    dsimp only
    rw [here.read more]
    dsimp only [Option.bind_eq_bind, Option.bind_some]
    rw [List.drop_left, others]
    rfl

/-- The options of a request come out with the strings sent if the descriptor is as long
as this side would have made it. -/
theorem options_read_of_own_length (body : List UInt8) (isBe : Bool) (desc options : StructureDesc) (n : Nat)
    (strings : List String)
    (parsed : ((new isBe).parseIntrospectionWithLen body (new isBe).fresh).1 = .ok (desc, n))
    (found : requestOptions desc = some options) (text : ∀ f ∈ options.fields, f.fieldType = .string)
    (count : strings.length = options.fields.length) (values : EncodesStrings isBe strings (body.drop n))
    (own : ownLength desc isBe = n) :
    decodePvRequestOptions body isBe = some ((options.fields.map FieldDescOf.name).zip strings) := by
  have inside : n ≤ body.length := by
    rcases result : (new isBe).parseIntrospectionWithLen body (new isBe).fresh with ⟨r, c⟩
    rw [result] at parsed
    obtain rfl : r = .ok (desc, n) := parsed
    exact parseIntrospectionFuel_within _ body _ _ _ result
  have filled : body ≠ [] := by
    rintro rfl
    cases parsed
  rw [decodePvRequestOptions, pvRequestIntrospection_eq parsed filled]
  dsimp only [Option.bind_eq_bind, Option.bind_some]
  rw [found]
  dsimp only [Option.bind_some]
  rw [← ownLength, own, if_neg (not_lt.mpr inside)]
  exact decodeOptionValues_encoded text count values

theorem options_read_own_encoding :
    let body := encodePvRequestWithOptions ["a"] [("k", "v")] true
    let desc := pvRequestDesc ["a"] [("k", "v")]
    ((new true).parseIntrospectionWithLen body (new true).fresh).1 = .ok (desc, ownLength desc true) ∧
      decodePvRequestOptions body true = some [("k", "v")] := by
  intro body desc
  have parsed := @WithinLimits.parsed true _ (withinLimits_letter "v") (pushString "v" true)
  have values : EncodesStrings true ["v"] (body.drop (ownLength desc true)) := by
    refine ⟨pushString "v" true, [], ⟨by decide, Or.inl rfl⟩, ?_, trivial⟩
    rw [ownLength, Nat.add_comm]
    exact List.drop_left
  refine ⟨parsed, ?_⟩
  exact options_read_of_own_length body true desc ⟨none, [⟨"k", .string⟩]⟩ (ownLength desc true) ["v"] parsed
    (requestOptions_pvRequestDesc (List.cons_ne_nil _ _) ["a"]) (by simp) rfl values rfl

/-- The descriptor of a structure whose empty identifier is written with the long size. -/
def longFormDesc (isBe : Bool) (fields : List FieldDesc) : List UInt8 :=
  0x80 :: ([0xFE, 0, 0, 0, 0] ++ (pushSize fields.length isBe ++ encodeFieldDescs isBe fields))

def optionFieldDescs : List FieldDesc :=
  [⟨"record", .structure ⟨none, [⟨"_options", .structure ⟨none, [⟨"k", .string⟩]⟩⟩]⟩⟩]

def longFormRequest : List UInt8 := longFormDesc false optionFieldDescs ++ pushString "v" false

theorem longFormRequest_parsed : ((new false).parseIntrospectionWithLen longFormRequest (new false).fresh).1
    = .ok (⟨none, optionFieldDescs⟩, (longFormDesc false optionFieldDescs).length) := by
  decide +kernel

/-- The descriptor sent is four bytes longer than this side would make it, and the option
is read from its last bytes. -/
theorem options_read_too_early :
    ((new false).parseIntrospectionWithLen longFormRequest (new false).fresh).1
        = .ok (⟨none, optionFieldDescs⟩, (longFormDesc false optionFieldDescs).length) ∧
      requestOptions ⟨none, optionFieldDescs⟩ = some ⟨none, [⟨"k", .string⟩]⟩ ∧
      EncodesStrings false ["v"] (longFormRequest.drop (longFormDesc false optionFieldDescs).length) ∧
      decodePvRequestOptions longFormRequest false ≠ some [("k", "v")] := by
  have values : EncodesStrings false ["v"] (longFormRequest.drop (longFormDesc false optionFieldDescs).length) :=
    ⟨pushString "v" false, [], ⟨by decide, Or.inl rfl⟩, List.drop_left, trivial⟩
  refine ⟨longFormRequest_parsed, rfl, values, ?_⟩
  rw [decodePvRequestOptions, pvRequestIntrospection_eq longFormRequest_parsed (by decide)]
  decide

end Spvirit
