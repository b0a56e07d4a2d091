import Spvirit.Payload.Tree

/-! Apart from an NTNDArray a payload's value block is the plain bytes of its tree, which has the descriptor's type. -/

namespace Spvirit

open ByteOrder

variable (isBe : Bool)

@[simp] theorem push_dvScalar (v : ScalarValue) : pushDecodedValue isBe (dvScalar v) = encodeScalarValue isBe v := by
  cases v <;> rfl

theorem flatMap_byte {α : Type} (f : α → UInt8) (v : List α) : v.flatMap (fun x => [f x]) = v.map f := by
  induction v with
  | nil => rfl
  | cons x v ih => rw [List.flatMap_cons, ih]; rfl

@[simp] theorem push_dvStringArray (v : List String) : pushDecodedValue isBe (dvStringArray v) = pushStringArray isBe v := by
  simp [dvStringArray, pushDecodedValue, pushStringArray, List.flatMap_map]

@[simp] theorem push_dvScalarArray (v : ScalarArrayValue) :
    pushDecodedValue isBe (dvScalarArray v) = pushScalarArrayValue isBe v := by
  rw [dvScalarArray, pushDecodedValue, pushDecodedItems_eq, List.flatMap_map]
  cases v <;>
    simp [ScalarArrayValue.items, List.flatMap_map, encodeScalarValue, encodeBool, encodeI32, encodeI64, encodeF64,
      pushScalarArrayValue, pushFixedWidth, pushStringArray, flatMap_byte]

theorem hasType_dvScalar (v : ScalarValue) : HasType (scalarFieldType v) (dvScalar v) := by
  cases v <;> first | rfl | exact ⟨_, rfl⟩

theorem hasType_dvScalarArray (v : ScalarArrayValue) : HasType (scalarArrayFieldType v) (dvScalarArray v) := by
  cases v
  case str v => exact ⟨v, by simp [dvScalarArray, ScalarArrayValue.items, dvScalar]⟩
  all_goals
    refine ⟨_, rfl, fun x member => ?_⟩
    simp only [ScalarArrayValue.items, List.map_map, List.mem_map, Function.comp_def] at member
    obtain ⟨y, -, rfl⟩ := member
    rfl

theorem hasType_dvStringArray (v : List String) : HasType .stringArray (dvStringArray v) := ⟨v, rfl⟩

theorem dvFormChoices_eq (v : List String) :
    dvFormChoices v = dvStringArray (if v.isEmpty then standardFormChoices else v) := by
  unfold dvFormChoices
  split <;> rfl

theorem hasType_structure {desc : StructureDesc} {fields : List (String × DecodedValue)}
    (typed : FieldsHaveType desc.fields fields) : HasType (.structure desc) (.structure fields) := ⟨fields, rfl, typed⟩

theorem hasType_dvAlarm (severity status : Int32) (message : String) :
    HasType (.structure alarmDesc) (dvAlarm severity status message) :=
  hasType_structure ⟨rfl, rfl, rfl, rfl, rfl, ⟨_, rfl⟩, trivial⟩

theorem hasType_dvNtTimestamp (ts : NtTimeStamp) : HasType (.structure timestampDesc) (dvNtTimestamp ts) :=
  hasType_structure ⟨rfl, rfl, rfl, rfl, rfl, rfl, trivial⟩

theorem hasType_dvEnum (index : Int32) (choices : List String) :
    HasType (.structure enumDesc) (dvEnum index (dvStringArray choices)) :=
  hasType_structure ⟨rfl, rfl, rfl, hasType_dvStringArray choices, trivial⟩

theorem hasType_dvForm (index : Int32) (choices : List String) :
    HasType (.structure enumDesc) (dvEnum index (dvFormChoices choices)) := by
  rw [dvFormChoices_eq]
  exact hasType_dvEnum index _

theorem hasType_dvDisplay (d : NtDisplay) : HasType (.structure displayDesc) (dvDisplay d) :=
  hasType_structure ⟨rfl, rfl, rfl, rfl, rfl, ⟨_, rfl⟩, rfl, ⟨_, rfl⟩, rfl, rfl, rfl, hasType_dvForm 0 [], trivial⟩

theorem hasType_dvScalarDisplay (nt : NtScalar) : HasType (.structure displayDesc) (dvScalarDisplay nt) :=
  hasType_structure ⟨rfl, rfl, rfl, rfl, rfl, ⟨_, rfl⟩, rfl, ⟨_, rfl⟩, rfl, rfl, rfl, hasType_dvForm _ _, trivial⟩

theorem hasType_dvControl (low high minStep : F64) : HasType (.structure controlDesc) (dvControl low high minStep) :=
  hasType_structure ⟨rfl, rfl, rfl, rfl, rfl, rfl, trivial⟩

theorem hasType_dvValueAlarm (nt : NtScalar) : HasType (.structure valueAlarmDesc) (dvValueAlarm nt) :=
  hasType_structure ⟨rfl, rfl, rfl, rfl, rfl, rfl, rfl, rfl, rfl, rfl, rfl, rfl, rfl, rfl, rfl, rfl, rfl, rfl, rfl, rfl,
    trivial⟩

theorem hasType_columns (columns : List NtTableColumn) :
    FieldsHaveType (columns.map columnDesc) (columns.map dvColumn) := by
  induction columns with
  | nil => trivial
  | cons col columns ih => exact ⟨rfl, hasType_dvScalarArray col.values, ih⟩

mutual

theorem hasType_dvPvValue : ∀ v : PvValue, HasType (pvValueFieldType v) (dvPvValue v)
  | .scalar v => hasType_dvScalar v
  | .scalarArray v => hasType_dvScalarArray v
  | .structure _ fields => ⟨_, rfl, hasType_dvGenericFields fields⟩

theorem hasType_dvGenericFields : ∀ fields : List (String × PvValue),
    FieldsHaveType (pvFieldDescs fields) (dvGenericFields fields)
  | [] => trivial
  | f :: fs => ⟨rfl, hasType_dvPvValue f.2, hasType_dvGenericFields fs⟩

end

def NtPayload.isNdArray : NtPayload → Bool
  | .ndArray _ => true
  | _ => false

theorem hasType_ntPayload (clock : Int64 × Int32) {p : NtPayload} (plain : p.isNdArray = false) :
    FieldsHaveType (ntPayloadDesc p).fields (ntPayloadFields clock p) := by
  cases p with
  | scalar nt =>
    exact ⟨rfl, hasType_dvScalar _, rfl, hasType_dvAlarm _ _ _, rfl, hasType_dvNtTimestamp _, rfl,
      hasType_dvScalarDisplay _, rfl, hasType_dvControl _ _ _, rfl, hasType_dvValueAlarm _, trivial⟩
  | scalarArray nt =>
    exact ⟨rfl, hasType_dvScalarArray _, rfl, hasType_dvAlarm _ _ _, rfl, hasType_dvNtTimestamp _, rfl,
      hasType_dvDisplay _, rfl, hasType_dvControl _ _ _, trivial⟩
  | table nt =>
    exact ⟨rfl, hasType_dvStringArray _, rfl, hasType_structure (hasType_columns _), rfl, ⟨_, rfl⟩, rfl,
      hasType_dvAlarm _ _ _, rfl, hasType_dvNtTimestamp _, trivial⟩
  | ndArray nt => simp [NtPayload.isNdArray] at plain
  | enum nt =>
    exact ⟨rfl, hasType_dvEnum _ _, rfl, hasType_dvAlarm _ _ _, rfl, hasType_dvNtTimestamp _, trivial⟩
  | generic structId fields => exact hasType_dvGenericFields fields

mutual

theorem push_dvPvValue : ∀ v : PvValue, pushPvValue isBe v = pushDecodedValue isBe (dvPvValue v)
  | .scalar v => (push_dvScalar isBe v).symm
  | .scalarArray v => (push_dvScalarArray isBe v).symm
  | .structure _ fields => push_dvGenericFields fields

theorem push_dvGenericFields : ∀ fields : List (String × PvValue),
    pushPvValueFields isBe fields = pushDecodedFields isBe (dvGenericFields fields)
  | [] => rfl
  | f :: fs => by rw [pushPvValueFields, dvGenericFields, pushDecodedFields, push_dvPvValue f.2, push_dvGenericFields fs]

end

theorem push_columns (columns : List NtTableColumn) :
    ((columns.map dvColumn).flatMap fun f => pushDecodedValue isBe f.2)
      = columns.flatMap fun col => pushScalarArrayValue isBe col.values := by
  simp [List.flatMap_map, dvColumn]

@[simp] theorem push_dvNtAlarm (a : NtAlarm) : pushDecodedValue isBe (dvNtAlarm a) = encodeNtAlarm isBe a := by
  simp [dvNtAlarm, dvAlarm, pushDecodedValue, encodeNtAlarm, encodeI32]

@[simp] theorem push_dvNtTimestamp (ts : NtTimeStamp) :
    pushDecodedValue isBe (dvNtTimestamp ts) = encodeNtTimestamp isBe ts := by
  simp [dvNtTimestamp, pushDecodedValue, encodeNtTimestamp, encodeI32, encodeI64]

@[simp] theorem push_dvEnum (index : Int32) (choices : List String) :
    pushDecodedValue isBe (dvEnum index (dvStringArray choices)) = encodeEnum isBe index choices := by
  simp [dvEnum, pushDecodedValue, encodeEnum, encodeI32]

@[simp] theorem push_dvControl (low high minStep : F64) : pushDecodedValue isBe (dvControl low high minStep)
    = encodeF64 isBe low ++ encodeF64 isBe high ++ encodeF64 isBe minStep := by
  simp [dvControl, pushDecodedValue, encodeF64]

@[simp] theorem push_dvDisplay (d : NtDisplay) : pushDecodedValue isBe (dvDisplay d) = encodeNtDisplay isBe d := by
  simp [dvDisplay, pushDecodedValue, encodeNtDisplay, encodeF64, encodeI32, dvFormChoices_eq]

@[simp] theorem push_dvScalarDisplay (nt : NtScalar) :
    pushDecodedValue isBe (dvScalarDisplay nt) = encodeDisplay isBe nt := by
  simp only [dvScalarDisplay, pushDecodedValue, pushDecodedFields, encodeDisplay, encodeF64, encodeI32, dvFormChoices_eq,
    push_dvEnum]
  split <;> simp

@[simp] theorem push_dvValueAlarm (nt : NtScalar) :
    pushDecodedValue isBe (dvValueAlarm nt) = encodeValueAlarm isBe nt := by
  simp [dvValueAlarm, pushDecodedValue, encodeValueAlarm, encodeBool, encodeF64, encodeI32]

/-- The value block of a payload other than an NTNDArray is the plain bytes of its tree. -/
theorem pushNtPayloadFull_eq (clock : Int64 × Int32) {p : NtPayload} (plain : p.isNdArray = false) :
    pushNtPayloadFull clock isBe p = (ntPayloadFields clock p).flatMap fun f => pushDecodedValue isBe f.2 := by
  cases p with
  | scalar nt =>
    have alarm : pushDecodedValue isBe (dvAlarm nt.alarmSeverity nt.alarmStatus nt.alarmMessage) = encodeAlarm isBe nt :=
      push_dvNtAlarm isBe ⟨nt.alarmSeverity, nt.alarmStatus, nt.alarmMessage⟩
    simp [pushNtPayloadFull, pushNtScalarFull, ntPayloadFields, dvNtScalarFields, alarm, encodeControl, encodeTimestamp,
      encodeNtTimestamp]
  | scalarArray nt => simp [pushNtPayloadFull, pushNtScalarArrayFull, ntPayloadFields, dvNtScalarArrayFields]
  | table nt =>
    simp [pushNtPayloadFull, pushNtTableFull, ntPayloadFields, dvNtTableFields, pushDecodedValue, push_columns]
  | ndArray nt => simp [NtPayload.isNdArray] at plain
  | enum nt => simp [pushNtPayloadFull, pushNtEnumFull, ntPayloadFields, dvNtEnumFields]
  | generic structId fields =>
    rw [ntPayloadFields, ← pushDecodedFields_eq]
    exact push_dvGenericFields isBe fields

end Spvirit
