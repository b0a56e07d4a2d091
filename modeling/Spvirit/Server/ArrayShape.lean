import Spvirit.Foundation.History
import Spvirit.Server.Convert

/-! The shape of an array record along the writes of the host and of the clients. -/

namespace Spvirit.Server

/-- The part of a PUT an array record looks at: its `value`, or the whole of a bare PUT. -/
def putValueField : DecodedValue → Option DecodedValue
  | .structure fields => (fields.find? fun field => field.1 = "value").map Prod.snd
  | other => some other

/-- The array, its count and whether it changed. A value that does not convert is refused. -/
def applyScalarArrayPut (floats : FloatOps) (nt : NtScalarArray) (nord : Nat) (value : DecodedValue) :
    Option (NtScalarArray × Nat × Bool) :=
  match putValueField value with
  | none => some (nt, nord, false)
  | some field =>
    match decodedToScalarArray floats nt.value field with
    | none => none
    | some next =>
      if nt.value.eq next then some (nt, nord, false) else some ({ nt with value := next }, next.len, true)

/-- The data fields of a PUT with the array records as the code has them. -/
def withArrayPut (ops : RecordOps) (floats : FloatOps) : RecordOps :=
  { ops with
    applyPutFields := fun d body =>
      match d with
      | .array nt nelm nord =>
        match applyScalarArrayPut floats nt nord body with
        | some (nt, nord, changed) => .ok (.array nt nelm nord, changed)
        | none => .error "value not representable in the record's element type"
      | d => ops.applyPutFields d body }

/-- The writes to a record, each with the time it is made at. -/
inductive ArrayWrite where
  | setArrayValue (value : ScalarArrayValue) (now : NtTimeStamp)
  | setNtPayload (payload : NtPayload) (now : NtTimeStamp)
  | applyPut (value : DecodedValue) (now : NtTimeStamp)

section

variable (ops : RecordOps) (floats : FloatOps)

/-- A refused PUT leaves the record as it is. -/
def writeArray (d : RecordData) : ArrayWrite → RecordData
  | .setArrayValue value now => (d.setArrayValue now value).1
  | .setNtPayload payload now => (d.setNtPayload (withArrayPut ops floats) now payload).1
  | .applyPut value now =>
    match d.applyPut (withArrayPut ops floats) now value with
    | .ok (next, _) => next
    | .error _ => d

def writeArrays (d : RecordData) (writes : List ArrayWrite) : RecordData := writes.foldl (writeArray ops floats) d

end

/-- An array record of the declared element type and size, with the right count. -/
def InShape (elements : Kind) (nelm : Nat) : RecordData → Prop
  | .array nt limit nord =>
    scalarArrayKind nt.value = elements ∧ limit = nelm ∧ nt.value.len ≤ nelm ∧ nord = nt.value.len
  | _ => False

/-- The elements sent are all of a kind that converts to the array's own. -/
def Representable (floats : FloatOps) (d : RecordData) (items : List DecodedValue) : Prop :=
  match d with
  | .array nt _ _ => (decodedToScalarArray floats nt.value (.array items)).isSome
  | _ => False

/-- The host writes arrays of the record's element type, and a client sends no more
elements than fit unless they are refused for what they are. -/
def ArrayWrite.Fits (floats : FloatOps) (elements : Kind) (nelm : Nat) (d : RecordData) : ArrayWrite → Prop
  | .setArrayValue value _ => scalarArrayKind value = elements
  | .setNtPayload (.scalarArray nt) _ => scalarArrayKind nt.value = elements
  | .setNtPayload _ _ => True
  | .applyPut value _ =>
    ∀ items, putValueField value = some (.array items) → Representable floats d items → items.length ≤ nelm

theorem truncate_kind (n : Nat) (v : ScalarArrayValue) :
    scalarArrayKind (v.truncate n) = scalarArrayKind v := by
  cases v <;> rfl

theorem truncate_len_le (n : Nat) (v : ScalarArrayValue) : (v.truncate n).len ≤ n := by
  cases v <;> simp [ScalarArrayValue.truncate, ScalarArrayValue.len, ScalarArrayValue.items]

theorem listEq_length {α : Type} {eq : α → α → Bool} {x y : List α} (same : listEq eq x y) :
    x.length = y.length := by
  fun_induction listEq eq x y with
  | case1 => rfl
  | case2 a x b y ih =>
    simp only [Bool.and_eq_true] at same
    rw [List.length_cons, List.length_cons, ih same.2]
  | case3 => cases same

theorem eq_same_shape {x y : ScalarArrayValue} (same : x.eq y) :
    scalarArrayKind x = scalarArrayKind y ∧ x.len = y.len := by
  unfold ScalarArrayValue.eq at same
  split at same
  · exact ⟨rfl, by simpa [ScalarArrayValue.len, ScalarArrayValue.items] using listEq_length same⟩
  · exact ⟨rfl, by simpa [ScalarArrayValue.len, ScalarArrayValue.items] using listEq_length same⟩
  · have equal := of_decide_eq_true same
    exact ⟨by rw [equal], by rw [equal]⟩

variable {ops : RecordOps} {floats : FloatOps} {elements : Kind} {nelm : Nat}

/-- The array is written unless it is equal to the one there. The result is in shape
exactly if the array written is. -/
theorem inShape_replace {nt next : NtScalarArray} {nord : Nat} {same : Prop} [Decidable same]
    (shape : InShape elements nelm (.array nt nelm nord)) (equal : same → nt.value.eq next.value) :
    InShape elements nelm (if same then (.array nt nelm nord) else (.array next nelm next.value.len)) ↔
      scalarArrayKind next.value = elements ∧ next.value.len ≤ nelm := by
  split_ifs with unchanged
  · obtain ⟨type, length⟩ := eq_same_shape (equal unchanged)
    rw [← type, ← length]
    exact ⟨fun _ => ⟨shape.1, shape.2.2.1⟩, fun _ => shape⟩
  · simp [InShape]

theorem setArrayValue_inShape_iff {nt : NtScalarArray} {nord : Nat} (shape : InShape elements nelm (.array nt nelm nord))
    (value : ScalarArrayValue) (now : NtTimeStamp) :
    InShape elements nelm ((RecordData.array nt nelm nord).setArrayValue now value).1 ↔
      scalarArrayKind value = elements := by
  have replaced := @inShape_replace elements nelm nt { nt with value := value.truncate nelm, timeStamp := now } nord
    (nt.value.eq (value.truncate nelm)) _ shape id
  rw [truncate_kind, and_iff_left (truncate_len_le nelm value)] at replaced
  rw [← replaced, RecordData.setArrayValue]
  dsimp only
  split_ifs <;> exact Iff.rfl

theorem setNtPayload_inShape_iff {nt next : NtScalarArray} {nord : Nat}
    (shape : InShape elements nelm (.array nt nelm nord)) (now : NtTimeStamp) :
    InShape elements nelm ((RecordData.array nt nelm nord).setNtPayload ops now (.scalarArray next)).1 ↔
      scalarArrayKind next.value = elements := by
  have equal : nt.eq { next with value := next.value.truncate nelm } → nt.value.eq (next.value.truncate nelm) := by
    intro same
    simp only [NtScalarArray.eq, Bool.and_eq_true] at same
    exact same.1.1.1.1
  have replaced := @inShape_replace elements nelm nt
    { next with
      value := next.value.truncate nelm
      timeStamp := if next.timeStamp = {} then now else next.timeStamp } nord
    (nt.eq { next with value := next.value.truncate nelm }) _ shape equal
  rw [truncate_kind, and_iff_left (truncate_len_le nelm next.value)] at replaced
  rw [← replaced, RecordData.setNtPayload]
  dsimp only
  split_ifs <;> exact Iff.rfl

variable (ops nelm) in
/-- An accepted PUT stores what the array path gives and stamps it. A bare PUT is read
like a structure with it as its `value`. -/
theorem applyPut_of_accepted {nt after : NtScalarArray} {nord count : Nat} {value : DecodedValue} {changed : Bool}
    (now : NtTimeStamp) (accepted : applyScalarArrayPut floats nt nord value = some (after, count, changed)) :
    ∃ ts outcome, (RecordData.array nt nelm nord).applyPut (withArrayPut ops floats) now value =
      .ok (.array { after with timeStamp := ts } nelm count, outcome) := by
  cases value <;>
    exact ⟨_, _, by
      simp only [RecordData.applyPut, withArrayPut, applyScalarArrayPut, putValueField] at accepted ⊢
      simp only [List.find?, decide_true, Option.map_some, accepted]
      rfl⟩

variable (ops nelm) in
theorem applyPut_of_refused {nt : NtScalarArray} {nord : Nat} {value : DecodedValue} (now : NtTimeStamp)
    (refused : applyScalarArrayPut floats nt nord value = none) :
    ∃ reason, (RecordData.array nt nelm nord).applyPut (withArrayPut ops floats) now value = .error reason := by
  cases value <;>
    exact ⟨_, by
      simp only [RecordData.applyPut, withArrayPut, applyScalarArrayPut, putValueField] at refused ⊢
      simp only [List.find?, decide_true, Option.map_some, refused]
      rfl⟩

theorem applyScalarArrayPut_inShape_iff {nt : NtScalarArray} {nord : Nat} {value : DecodedValue}
    (shape : InShape elements nelm (.array nt nelm nord)) {after : NtScalarArray} {count : Nat} {changed : Bool}
    (accepted : applyScalarArrayPut floats nt nord value = some (after, count, changed)) :
    InShape elements nelm (.array after nelm count) ↔
      ∀ items, putValueField value = some (.array items) →
        Representable floats (.array nt nelm nord) items → items.length ≤ nelm := by
  unfold applyScalarArrayPut at accepted
  split at accepted
  · rename_i absent
    cases accepted
    exact ⟨fun _ items found => (nomatch absent.symm.trans found), fun _ => shape⟩
  · rename_i field found
    split at accepted
    · cases accepted
    · rename_i next converted
      obtain ⟨items, rfl, type, length⟩ := decodedToScalarArray_spec floats converted
      have replaced := @inShape_replace elements nelm nt { nt with value := next } nord (nt.value.eq next) _ shape id
      rw [and_iff_right (type.trans shape.1)] at replaced
      have stored : InShape elements nelm (.array after nelm count) ↔ next.len ≤ nelm := by
        rw [← replaced]
        split_ifs at accepted ⊢ <;> cases accepted <;> exact Iff.rfl
      rw [stored, length]
      constructor
      · rintro short others same -
        cases found.symm.trans same
        exact short
      · exact fun short => short items found (by simp [Representable, converted])

theorem writeArray_inShape_iff {d : RecordData} (shape : InShape elements nelm d) (write : ArrayWrite) :
    InShape elements nelm (writeArray ops floats d write) ↔ write.Fits floats elements nelm d := by
  cases d with
  | array nt limit nord =>
    obtain rfl : limit = nelm := shape.2.1
    cases write with
    | setArrayValue value now => exact setArrayValue_inShape_iff shape value now
    | setNtPayload payload now =>
      cases payload with
      | scalarArray next => exact setNtPayload_inShape_iff shape now
      | _ => exact ⟨fun _ => trivial, fun _ => shape⟩
    | applyPut value now =>
      unfold writeArray ArrayWrite.Fits
      dsimp only
      cases put : applyScalarArrayPut floats nt nord value with
      | some result =>
        obtain ⟨after, count, changed⟩ := result
        obtain ⟨ts, outcome, applied⟩ := applyPut_of_accepted ops limit now put
        rw [← applyScalarArrayPut_inShape_iff shape put, applied]
        exact Iff.rfl
      | none =>
        obtain ⟨reason, applied⟩ := applyPut_of_refused ops limit now put
        rw [applied]
        refine ⟨fun _ items found sent => ?_, fun _ => shape⟩
        simp only [applyScalarArrayPut, found] at put
        obtain ⟨next, converted⟩ := Option.isSome_iff_exists.mp sent
        rw [converted] at put
        dsimp only at put
        split_ifs at put
  | _ => exact shape.elim

/-- A record that starts in shape is in shape after every write exactly if every write
fits the record it is made to. -/
theorem array_in_shape_iff (ops : RecordOps) (floats : FloatOps) (elements : Kind) (nelm : Nat) (d : RecordData)
    (start : InShape elements nelm d) (writes : List ArrayWrite) :
    (∀ done, done <+: writes → InShape elements nelm (writeArrays ops floats d done)) ↔
      ∀ done write, done ++ [write] <+: writes →
        write.Fits floats elements nelm (writeArrays ops floats d done) :=
  @History.good_along_iff _ _ (writeArray ops floats) (InShape elements nelm) (fun d write => write.Fits floats elements nelm d)
    (fun _ write shape => writeArray_inShape_iff shape write) d start writes

/-- Conversions that know no float. -/
def noFloats : FloatOps := ⟨fun _ => none, fun _ => none, fun _ => ⟨0⟩, fun _ => ⟨0⟩, fun _ => ⟨0⟩⟩

/-- Operations an array record never uses. -/
def idleOps : RecordOps where
  computeAlarms := false
  coerceInto _ _ := none
  updateAlarmFromValue nt := nt
  ndArrayValid _ := true
  applyPutFields d _ := .ok (d, false)
  clientTimestamp _ := none
  clientDataTimestamp _ := none
  validator _ := .ok ()
  scalarAsF64 _ := none
  nearer _ _ _ := false

def twoBytes : RecordData := .array { value := .i8 [1, 2] } 2 2

instance (elements : Kind) (nelm : Nat) (d : RecordData) : Decidable (InShape elements nelm d) := by
  cases d <;> dsimp only [InShape] <;> infer_instance

/-- A host write of the same type keeps the shape. -/
theorem array_in_shape_two_bytes : InShape .int8 2 twoBytes ∧
    (∀ done, done <+: [.setArrayValue (.i8 [3, 4, 5]) {}] →
      InShape .int8 2 (writeArrays idleOps noFloats twoBytes done)) := by
  refine ⟨by decide, (array_in_shape_iff idleOps noFloats _ 2 twoBytes (by decide) _).mpr ?_⟩
  intro done write reached
  have last := List.IsPrefix.length_le reached
  obtain ⟨rest, whole⟩ := reached
  cases done with
  | nil =>
    cases whole
    rfl
  | cons first others => simp at last

/-- A client's PUT of three elements overfills a waveform of two, and an array of another
type the host writes changes the element type. -/
theorem array_leaves_shape : InShape .int8 2 twoBytes ∧
    ¬ InShape .int8 2
      (writeArray idleOps noFloats twoBytes (.applyPut (.array [.int8 1, .int8 2, .int8 3]) {})) ∧
    ¬ InShape .int8 2
      (writeArray idleOps noFloats twoBytes (.setArrayValue (.u16 [1]) {})) ∧
    ¬ InShape .int8 2
      (writeArray idleOps noFloats twoBytes (.setNtPayload (.scalarArray { value := .u16 [1] }) {})) := by
  refine ⟨by decide, by decide, by decide, by decide⟩

end Spvirit.Server
