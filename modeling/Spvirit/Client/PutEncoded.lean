import Spvirit.Client.PutGiven

/-! What the encoder of a PUT writes: the bits of the fields named in the input, and
their bytes one after the other. -/

namespace Spvirit.Client

open PvdDecoder

def BitsSet (before after : List UInt8) (start : Nat) (flags : List Bool) : Prop :=
  ∀ n, bitAt after n = (bitAt before n || (decide (start ≤ n) && (flags[n - start]?).getD false))

section

variable {first second third : List UInt8} {start : Nat} {flags more : List Bool}

theorem BitsSet.append (left : BitsSet first second start flags)
    (right : BitsSet second third (start + flags.length) more) : BitsSet first third start (flags ++ more) := by
  intro n
  rw [right n, left n, Bool.or_assoc]
  congr 1
  by_cases low : start ≤ n
  · by_cases here : n - start < flags.length
    · have before : ¬ start + flags.length ≤ n := by omega
      simp [low, before, List.getElem?_append_left here]
    · have behind : start + flags.length ≤ n := by omega
      have shift : n - start - flags.length = n - (start + flags.length) := by omega
      rw [List.getElem?_append_right (by omega), List.getElem?_eq_none (Nat.le_of_not_lt here), shift]
      simp [low, behind]
  · have before : ¬ start + flags.length ≤ n := by omega
    simp [low, before]

theorem BitsSet.clear (count : Nat) : BitsSet first first start (List.replicate count false) := by
  intro n
  have none : ((List.replicate count false)[n - start]?).getD false = false := by
    rw [List.getElem?_replicate]
    split <;> rfl
  rw [none]
  simp

theorem BitsSet.grow : BitsSet first (growBit first start) start [true] := by
  intro n
  have room : start / 8 < (first ++ List.replicate (start / 8 + 1 - first.length) 0).length := by
    rw [List.length_append, List.length_replicate]
    omega
  have padded : bitAt (first ++ List.replicate (start / 8 + 1 - first.length) 0) n = bitAt first n := by
    unfold bitAt
    rcases Nat.lt_or_ge (n / 8) first.length with inside | beyond
    · rw [List.getElem?_append_left inside]
    · rw [List.getElem?_append_right beyond, List.getElem?_eq_none beyond, List.getElem?_replicate]
      by_cases room : n / 8 - first.length < start / 8 + 1 - first.length <;> simp [room]
  rw [growBit, bitAt_setBit room, padded]
  congr 1
  by_cases same : start = n
  · subst same
    simp
  · by_cases low : start ≤ n
    · have later : ([true] : List Bool)[n - start]? = none := List.getElem?_eq_none (by simp; omega)
      simp [same, low, later]
    · simp [same, low]

theorem BitsSet.bitsAre (set : BitsSet [] second 1 flags) : BitsAre second 1 flags ∧ bitAt second 0 = false := by
  refine ⟨bitsAre_of_forall fun i inside => ?_, ?_⟩
  · rw [set (1 + i), Nat.add_sub_cancel_left, List.getElem?_eq_getElem inside]
    simp [bitAt]
  · rw [set 0]
    simp [bitAt]

end

mutual

/-- The bits of the fields, depth first: those of the leaves named in the input are set. -/
def namedFlags : List (FieldDescOf FieldType) → List (String × Json) → List Bool
  | [], _ => []
  | f :: fs, values => fieldFlags f.fieldType (Json.get values f.name) ++ namedFlags fs values

def fieldFlags : FieldType → Option Json → List Bool
  | .structure desc, some (.object obj) => false :: namedFlags desc.fields obj
  | .structure desc, _ => false :: List.replicate (countFields desc.fields) false
  | _, j => [j.isSome]

end

section

variable (ops : JsonOps) (isBe : Bool)

mutual

def FieldsEncode : List (FieldDescOf FieldType) → List (String × Json) → List UInt8 → Prop
  | [], _, bytes => bytes = []
  | f :: fs, values, bytes =>
    ∃ head tail, bytes = head ++ tail ∧ FieldEncodes f.fieldType f.name (Json.get values f.name) head ∧
      FieldsEncode fs values tail

def FieldEncodes : FieldType → String → Option Json → List UInt8 → Prop
  | .structure desc, _, j, bytes =>
    j = none ∧ bytes = [] ∨ ∃ obj, j = some (.object obj) ∧ (∃ f ∈ desc.fields, (Json.get obj f.name).isSome) ∧
      FieldsEncode desc.fields obj bytes
  | ft, name, j, bytes =>
    j = none ∧ bytes = [] ∨ ∃ k, j = some k ∧ encodeTyped ops isBe false ft k name = .ok bytes

end

end

section

variable {ops : JsonOps} {isBe : Bool}

theorem fieldFlags_leaf {ft : FieldType} (leaf : ft.isStructure = false) (j : Option Json) :
    fieldFlags ft j = [j.isSome] := by
  cases ft <;> first | rfl | simp [FieldType.isStructure] at leaf

theorem fieldEncodes_leaf {ft : FieldType} (leaf : ft.isStructure = false) {name : String} {j : Option Json}
    {bytes : List UInt8} : FieldEncodes ops isBe ft name j bytes ↔
      (j = none ∧ bytes = [] ∨ ∃ k, j = some k ∧ encodeTyped ops isBe false ft k name = .ok bytes) := by
  cases ft <;> first | exact Iff.rfl | simp [FieldType.isStructure] at leaf

theorem namedFlags_length {fs : List FieldDesc}
    (each : ∀ f ∈ fs, ∀ j, (fieldFlags f.fieldType j).length = 1 + countNested f.fieldType)
    (values : List (String × Json)) : (namedFlags fs values).length = countFields fs := by
  induction fs with
  | nil => rfl
  | cons f fs ih =>
    obtain ⟨head, tail⟩ := List.forall_mem_cons.mp each
    rw [namedFlags, List.length_append, head, ih tail, countFields]

theorem fieldFlags_length (ft : FieldType) : ∀ j, (fieldFlags ft j).length = 1 + countNested ft := by
  induction ft with
  | struct desc each =>
    intro j
    unfold fieldFlags
    split
    · rename_i obj same
      cases same
      rw [List.length_cons, namedFlags_length each, countNested, Nat.add_comm]
    · rename_i same _
      cases same
      rw [List.length_cons, List.length_replicate, countNested, Nat.add_comm]
    · rename_i leaf _
      exact absurd rfl (leaf desc)
  | _ =>
    intro j
    rfl

theorem checkKeys_known {fields : List FieldDesc} {values : List (String × Json)}
    (checked : checkKeys fields values = .ok ()) (filled : values ≠ []) :
    ∃ f ∈ fields, (Json.get values f.name).isSome := by
  cases values with
  | nil => exact absurd rfl filled
  | cons e rest =>
    unfold checkKeys at checked
    split at checked
    · cases checked
    · rename_i none
      have known := List.find?_eq_none.mp none e List.mem_cons_self
      obtain ⟨f, member, same⟩ : ∃ f ∈ fields, f.name = e.1 := by simpa using known
      refine ⟨f, member, ?_⟩
      simp [Json.get, same]

theorem growBit_length (bitset : List UInt8) (bit : Nat) :
    (growBit bitset bit).length = max bitset.length (bit / 8 + 1) := by
  rw [growBit, setBit_length, List.length_append, List.length_replicate]
  omega

/-- The last byte of the bitset has a bit set. -/
def Tight (bitset : List UInt8) : Prop := bitset = [] ∨ ∃ n, bitAt bitset n = true ∧ bitset.length = n / 8 + 1

theorem growBit_tight {bitset : List UInt8} {bit : Nat} (tight : Tight bitset) : Tight (growBit bitset bit) := by
  have length := growBit_length bitset bit
  have set : BitsSet bitset (growBit bitset bit) bit [true] := BitsSet.grow
  rcases Nat.lt_or_ge (bit / 8) bitset.length with inside | beyond
  · rcases tight with rfl | ⟨n, last, exactly⟩
    · cases inside
    · exact Or.inr ⟨n, by rw [set n, last, Bool.true_or], by omega⟩
  · exact Or.inr ⟨bit, by simp [set bit], by omega⟩

structure Encodes (body next : PutBody) (flags : List Bool) (bytes : List UInt8) : Prop where
  data : next.data = body.data ++ bytes
  bitOffset : next.bitOffset = body.bitOffset + flags.length
  bits : BitsSet body.bitset next.bitset body.bitOffset flags
  tight : Tight body.bitset → Tight next.bitset

theorem Encodes.append {body mid next : PutBody} {flags more : List Bool} {bytes rest : List UInt8}
    (first : Encodes body mid flags bytes) (second : Encodes mid next more rest) :
    Encodes body next (flags ++ more) (bytes ++ rest) := by
  refine ⟨?_, ?_, ?_, ?_⟩
  · rw [second.data, first.data, List.append_assoc]
  · rw [second.bitOffset, first.bitOffset, List.length_append, Nat.add_assoc]
  · have later := second.bits
    rw [first.bitOffset] at later
    exact first.bits.append later
  · exact fun tight => second.tight (first.tight tight)

theorem Encodes.clear (body : PutBody) (count : Nat) :
    Encodes body { body with bitOffset := body.bitOffset + count } (List.replicate count false) [] :=
  ⟨(List.append_nil _).symm, by rw [List.length_replicate], BitsSet.clear count, id⟩

theorem Encodes.leaf (body : PutBody) (bytes : List UInt8) :
    Encodes body ⟨growBit body.bitset body.bitOffset, body.bitOffset + 1, body.data ++ bytes⟩ [true] bytes :=
  ⟨rfl, rfl, BitsSet.grow, growBit_tight⟩

/-- Every bit set is in a bitset whose size four bytes can tell. -/
def FitsSize (flags : List Bool) : Prop := ∀ i, flags[i]? = some true → (1 + i) / 8 + 1 < 2 ^ 32

theorem Encodes.small {next : PutBody} {flags : List Bool} {bytes : List UInt8}
    (encodes : Encodes ⟨[], 1, []⟩ next flags bytes) (fits : FitsSize flags) : next.bitset.length < 2 ^ 32 := by
  rcases encodes.tight (Or.inl rfl) with empty | ⟨n, last, exactly⟩
  · simp [empty]
  · have set := (encodes.bits n).symm.trans last
    have none : bitAt [] n = false := by simp [bitAt]
    rw [none, Bool.false_or, Bool.and_eq_true, decide_eq_true_eq] at set
    obtain ⟨low, flag⟩ : 1 ≤ n ∧ flags[n - 1]? = some true := by
      cases found : flags[n - 1]? with
      | none => simp [found] at set
      | some b => simpa [found] using set
    have bound := fits (n - 1) flag
    rw [Nat.add_sub_cancel' low] at bound
    omega

variable (ops isBe) in
def EncodesField (ft : FieldType) : Prop :=
  ∀ name val body next, encodePartialField ops isBe ft name val body = .ok next →
    ∃ bytes, FieldEncodes ops isBe ft name val bytes ∧ Encodes body next (fieldFlags ft val) bytes

theorem encodePartialFields_encodes {fs : List FieldDesc} (each : ∀ f ∈ fs, EncodesField ops isBe f.fieldType)
    {values : List (String × Json)} {body next : PutBody}
    (encoded : encodePartialFields ops isBe fs values body = .ok next) :
    ∃ bytes, FieldsEncode ops isBe fs values bytes ∧ Encodes body next (namedFlags fs values) bytes := by
  induction fs generalizing body with
  | nil =>
    obtain rfl : body = next := Except.ok.inj encoded
    exact ⟨[], rfl, Encodes.clear body 0⟩
  | cons f fs ih =>
    cases head : encodePartialField ops isBe f.fieldType f.name (Json.get values f.name) body with
    | error e => simp [encodePartialFields, head, bind, Except.bind] at encoded
    | ok mid =>
      simp only [encodePartialFields, head, bind, Except.bind] at encoded
      obtain ⟨bytes, own, first⟩ := each f List.mem_cons_self f.name _ body mid head
      obtain ⟨rest, others, second⟩ := ih (fun g member => each g (List.mem_cons_of_mem f member)) encoded
      exact ⟨bytes ++ rest, ⟨bytes, rest, rfl, own, others⟩, first.append second⟩

theorem leaf_encodesField {ft : FieldType} (leaf : ft.isStructure = false) : EncodesField ops isBe ft := by
  intro name val body next encoded
  rw [fieldFlags_leaf leaf]
  simp only [fieldEncodes_leaf leaf]
  cases val with
  | none =>
    have passed : encodePartialField ops isBe ft name none body = .ok { body with bitOffset := body.bitOffset + 1 } := by
      cases ft <;> first | rfl | simp [FieldType.isStructure] at leaf
    obtain rfl := Except.ok.inj (passed.symm.trans encoded)
    exact ⟨[], Or.inl ⟨rfl, rfl⟩, Encodes.clear body 1⟩
  | some j =>
    have written : encodePartialField ops isBe ft name (some j) body = (encodeFieldValue ops isBe ft j name).bind
        fun bytes => .ok ⟨growBit body.bitset body.bitOffset, body.bitOffset + 1, body.data ++ bytes⟩ := by
      cases ft <;> first | rfl | simp [FieldType.isStructure] at leaf
    rw [written] at encoded
    cases value : encodeFieldValue ops isBe ft j name with
    | error e => simp [value, Except.bind] at encoded
    | ok bytes =>
      simp only [value, Except.bind, Except.ok.injEq] at encoded
      rw [← encoded]
      exact ⟨bytes, Or.inr ⟨j, rfl, value⟩, Encodes.leaf body bytes⟩

theorem encodesField (ft : FieldType) : EncodesField ops isBe ft := by
  induction ft with
  | struct desc each =>
    intro name val body next encoded
    simp only [encodePartialField] at encoded
    split at encoded
    · rename_i obj
      split_ifs at encoded with empty
      cases checked : checkKeys desc.fields obj with
      | error e => simp [checked, bind, Except.bind] at encoded
      | ok _ =>
        simp only [checked, bind, Except.bind] at encoded
        have named := checkKeys_known checked (by simpa using empty)
        obtain ⟨bytes, inner, encodes⟩ := encodePartialFields_encodes each encoded
        exact ⟨bytes, Or.inr ⟨obj, rfl, named, inner⟩, (Encodes.clear body 1).append encodes⟩
    · cases encoded
    · obtain rfl := Except.ok.inj encoded
      refine ⟨[], Or.inl ⟨rfl, rfl⟩, ?_⟩
      have clear := Encodes.clear body (1 + countFields desc.fields)
      rw [Nat.add_comm 1, ← Nat.add_assoc, Nat.add_right_comm] at clear
      exact clear
  | _ => exact leaf_encodesField rfl

theorem encodePutPayload_ok {desc : StructureDesc} {input : Json} {payload : List UInt8}
    (accepted : encodePutPayload ops isBe desc input = .ok payload) :
    ∃ root body, normalizeRoot desc input = .ok root ∧ checkKeys desc.fields root = .ok () ∧
      encodePartialFields ops isBe desc.fields root ⟨[], 1, []⟩ = .ok body ∧ body.bitset ≠ [] ∧
      payload = pushSize body.bitset.length isBe ++ body.bitset ++ body.data := by
  unfold encodePutPayload encodeStructurePartial at accepted
  cases normal : normalizeRoot desc input with
  | error e => simp [normal, bind, Except.bind] at accepted
  | ok root =>
    cases checked : checkKeys desc.fields root with
    | error e => simp [normal, checked, bind, Except.bind] at accepted
    | ok _ =>
      cases encoded : encodePartialFields ops isBe desc.fields root ⟨[], 1, []⟩ with
      | error e => simp [normal, checked, encoded, bind, Except.bind] at accepted
      | ok body =>
        simp only [normal, checked, encoded, bind, Except.bind] at accepted
        split_ifs at accepted with empty
        exact ⟨root, body, rfl, checked, encoded, by simpa using empty, (Except.ok.inj accepted).symm⟩

end

end Spvirit.Client
