import Spvirit.Codec.LeastBytes
import Spvirit.Payload.Monitor
import Spvirit.Wire.Lossy

/-! Monitor data frames read back as the tree of their payload. -/

namespace Spvirit

open PvdDecoder Fallible

theorem length_le_flatMap_cons {α : Type} (xs : List α) (f : α → List UInt8) (b : UInt8) :
    xs.length ≤ (xs.flatMap fun x => b :: f x).length := by
  induction xs with
  | nil => exact Nat.zero_le _
  | cons x xs ih =>
    rw [List.flatMap_cons, List.length_append, List.length_cons, List.length_cons]
    omega

theorem ndArray_budget {isBe : Bool} {nt : NtNdArray}
    (few : nt.codec.parameters.entries.length ≤ DecodeLimits.default.maxStructFields)
    (within : nt.attributes.length ≤ DecodeLimits.default.maxStructArray) :
    parameterNodes nt.codec.parameters + nt.attributes.length
      ≤ nodeCeiling DecodeLimits.default.maxStructFields ((pushNtNdarrayFull isBe nt).length + 1) := by
  have attributes := length_le_flatMap_cons nt.attributes (pushAttribute isBe) 1
  have bytes : nt.attributes.length ≤ (pushNtNdarrayFull isBe nt).length := by
    simp only [pushNtNdarrayFull, List.length_append]
    omega
  have parameters : parameterNodes nt.codec.parameters ≤ 1 + nt.codec.parameters.entries.length := by
    unfold parameterNodes
    split <;> omega
  simp only [nodeCeiling, DecodeLimits.default, nodesPerByte, maxDecodeNodes] at *
  omega

/-- Whatever the payload, its frame decodes against its own descriptor to its
own tree. The clock stands in for a time stamp that is not stored. -/
theorem monitorDataResponse_roundTrip (clock : Int64 × Int32) (ioid : UInt32) (p : NtPayload) (version : UInt8)
    (isBe : Bool) (arrays : ArraysWithin .default (ntPayloadToDecoded clock p))
    (strings : StringsShort (ntPayloadToDecoded clock p))
    (parameters : ∀ nt, p = .ndArray nt → (∀ key ∈ nt.codec.parameters.keys, Short key) ∧
      nt.codec.parameters.entries.length ≤ DecodeLimits.default.maxStructFields)
    (fits : (encodeMonitorDataResponsePayload clock ioid 0x00 p version isBe).length < 2 ^ 32 + 8) :
    DecodesTo (encodeMonitorDataResponsePayload clock ioid 0x00 p version isBe) (ntPayloadDesc p) isBe
      (ntPayloadToDecoded clock p) := by
  have admissible : ∀ f ∈ ntPayloadFields clock p, Admissible .default f.2 := Admissible.field ⟨arrays, strings⟩
  unfold encodeMonitorDataResponsePayload pushNtPayloadBitset at fits ⊢
  rw [ntPayloadFieldCount_eq] at fits ⊢
  rcases plain : p.isNdArray with _ | _
  · rw [pushNtPayloadFull_eq isBe clock plain] at fits ⊢
    exact decodesTo_allOnes (marked_all (hasType_ntPayload clock plain) admissible) (Nat.zero_le _) fits
  · cases p with
    | ndArray nt =>
      obtain ⟨short, few⟩ := parameters nt rfl
      have within := structures_within (admissible ("attribute", dvAttributes nt.attributes) (by
        simp [ntPayloadFields, dvNtNdarrayFields]))
      exact decodesTo_allOnes (marked_ndArray nt admissible short few) (ndArray_budget few within) fits
    | _ => simp [NtPayload.isNdArray] at plain

theorem arraysWithin_string {limits : DecodeLimits} (s : String) : ArraysWithin limits (.string s) := by
  intro items occurs
  cases occurs

theorem arraysWithin_structure {limits : DecodeLimits} {fields : List (String × DecodedValue)}
    (each : ∀ f ∈ fields, ArraysWithin limits f.2) : ArraysWithin limits (.structure fields) := by
  intro items occurs
  cases occurs with
  | field member occurs => exact each _ member items occurs

def textPayload (text : String) : NtPayload := .generic "" [("text", .scalar (.str text))]

theorem textPayload_admissible {clock : Int64 × Int32} {text : String} (short : Short text) :
    ArraysWithin .default (ntPayloadToDecoded clock (textPayload text)) ∧
      StringsShort (ntPayloadToDecoded clock (textPayload text)) := by
  have tree : ntPayloadToDecoded clock (textPayload text) = .structure [("text", .string text)] := rfl
  rw [tree]
  refine ⟨arraysWithin_structure (by simpa using arraysWithin_string text), fun s occurs => ?_⟩
  cases occurs with
  | field member inside =>
    rw [List.mem_singleton.mp member] at inside
    cases inside
    exact short

theorem monitorDataResponse_roundTrip_text :
    DecodesTo (encodeMonitorDataResponsePayload (0, 0) 7 0x00 (textPayload "on") 2 true)
      (ntPayloadDesc (textPayload "on")) true (.structure [("text", .string "on")]) := by
  have short : Short "on" := by
    unfold Short
    decide
  obtain ⟨arrays, strings⟩ := @textPayload_admissible (0, 0) _ short
  exact monitorDataResponse_roundTrip (0, 0) 7 (textPayload "on") 2 true arrays strings (fun nt other => by cases other)
    (by decide)

/-- If these are the fields of a structure of one text, its text lies in the first `n` bytes. -/
def TextWithin (isBe : Bool) (fields : List (String × DecodedValue)) (n : Nat) : Prop :=
  ∀ s, fields = [("text", .string s)] → (pushString s isBe).length ≤ n

section

variable {isBe : Bool} {data bitset : List UInt8}

theorem decodeText_within (fuel : Nat) : Returns ((new isBe).decodeValueFuel fuel data .string) fun r =>
    TextWithin isBe [("text", r.1)] r.2 := by
  cases fuel with
  | zero => exact returns_scope (returns_enter .throw)
  | succ fuel =>
    refine returns_scope (returns_enter ((Returns.ofExcept fun _ read => pushString_length_le read).bind ?_))
    rintro r within
    refine .pure fun s same => ?_
    cases same
    exact within

theorem nothing_within (n : Nat) : TextWithin isBe [] n := fun s same => by cases same

theorem decodeFields_text (fuel : Nat) : Returns (decodeFields ((new isBe).decodeValueFuel fuel) data [⟨"text", .string⟩] 0)
    fun r => TextWithin isBe r.1 r.2 := by
  unfold decodeFields
  split_ifs
  · exact .pure (nothing_within 0)
  · refine (decodeText_within fuel).attempt.bind fun result within => ?_
    split
    · exact .pure (nothing_within 0)
    · refine .pure ?_
      simpa using within _ rfl

theorem walkFields_text {counts : List Nat} :
    Returns ((new isBe).walkFields data bitset counts [⟨"text", .string⟩] 0 1)
      fun w => TextWithin isBe w.fields w.offset := by
  have leaf : Returns ((new isBe).walkField data bitset counts .string "text" 0 1)
      fun w => TextWithin isBe w.fields w.offset := by
    unfold walkField walkLeaf
    split_ifs
    · exact .pure (nothing_within 0)
    · refine (decodeText_within _).attempt.bind fun result within => ?_
      split
      · refine .pure ?_
        simpa using within _ rfl
      · exact .pure (nothing_within 0)
    · exact .pure (nothing_within 0)
  unfold walkFields
  refine leaf.bind fun here within => ?_
  split_ifs
  · refine .pure ?_
    simpa using within
  · exact .pure within

theorem bitsetBody_text (id : Option String) : Returns ((new isBe).bitsetBody data ⟨id, [⟨"text", .string⟩]⟩ bitset)
    fun r => ∀ fields, r.1 = .structure fields → TextWithin isBe fields r.2 := by
  have walk : Returns ((new isBe).bitsetWalk data ⟨id, [⟨"text", .string⟩]⟩ bitset)
      fun r => ∀ fields, r.1 = .structure fields → TextWithin isBe fields r.2 :=
    walkFields_text.bind fun w within => .pure fun fields same => by cases same; exact within
  unfold bitsetBody
  split_ifs
  · have whole : Returns ((new isBe).decodeStructure data ⟨id, [⟨"text", .string⟩]⟩)
        fun r => ∀ fields, r.1 = .structure fields → TextWithin isBe fields r.2 :=
      returns_scope ((decodeFields_text _).bind fun r within => .pure fun fields same => by cases same; exact within)
    refine whole.attempt.bind fun result within => ?_
    split
    · exact .pure (within _ rfl)
    · exact walk
  · exact walk

theorem decodeMonitorUpdate_text (id : Option String) :
    Returns ((new isBe).decodeMonitorUpdate data ⟨id, [⟨"text", .string⟩]⟩) fun update =>
      ∀ s, update.value = .structure [("text", .string s)] → (pushString s isBe).length ≤ data.length := by
  refine Returns.skip fun first => (returns_scope (bitsetBody_text id)).bind fun r within => ?_
  refine (Returns.ofExcept fun _ read => read).bind fun second read => .pure fun s same => ?_
  have text := within _ same s rfl
  have inside : first.2 + r.2 ≤ data.length := by
    by_contra past
    unfold readBitset at read
    rw [if_pos (by omega)] at read
    cases read
  omega

end

/-- A body shorter than `2 ^ 32` bytes does not hold a text of that many with its prefix. -/
theorem textPayload_long {clock : Int64 × Int32} {ioid : UInt32} {text : String} {version : UInt8} {isBe : Bool}
    (long : 2 ^ 32 ≤ (utf8 text).length + 1) :
    ¬ DecodesTo (encodeMonitorDataResponsePayload clock ioid 0x00 (textPayload text) version isBe)
      (ntPayloadDesc (textPayload text)) isBe (ntPayloadToDecoded clock (textPayload text)) := fun decodes => by
  obtain ⟨body, update, bound, run, value⟩ := decodes.update
  have inside := decodeMonitorUpdate_text _ _ _ _ (Prod.ext run rfl) _ value
  have header := @pushSize_length_pos (utf8 text).length isBe
  rw [pushString, List.length_append] at inside
  omega

/-- The longest text whose length fits its prefix. -/
def longText : String := String.ofList (List.replicate (2 ^ 32 - 1) 'a')

theorem longText_length : (utf8 longText).length = 2 ^ 32 - 1 := utf8_replicate _

/-- The text fits its own prefix, but the frame is longer than its header can
say: the length wraps round and the reader takes too few bytes. -/
theorem monitorDataResponse_long :
    ArraysWithin .default (ntPayloadToDecoded (0, 0) (textPayload longText)) ∧
      StringsShort (ntPayloadToDecoded (0, 0) (textPayload longText)) ∧
      ¬ DecodesTo (encodeMonitorDataResponsePayload (0, 0) 0 0x00 (textPayload longText) 2 false)
        (ntPayloadDesc (textPayload longText)) false (ntPayloadToDecoded (0, 0) (textPayload longText)) := by
  have length := longText_length
  have short : Short longText := by
    rw [Short, length]
    omega
  obtain ⟨arrays, strings⟩ := @textPayload_admissible (0, 0) _ short
  refine ⟨arrays, strings, textPayload_long ?_⟩
  rw [length]
  omega

end Spvirit
