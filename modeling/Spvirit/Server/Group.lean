import Spvirit.Server.FieldPv

/-! Group PVs: a structure whose fields are the values of other PVs, and its description. -/

namespace Spvirit.Server

inductive FieldMapping where
  | scalar
  | plain
  | metaOnly
  | any
  | proc
  deriving DecidableEq, Repr

structure GroupMember where
  fieldName : String
  channel : String
  mapping : FieldMapping

structure GroupPvDef where
  structId : Option String
  members : List GroupMember

/-- The sources of the members. Each claims what it serves. -/
structure MemberSources where
  get : String → Option NtPayload
  claim : String → Option PvInfo
  honest : ∀ channel, (claim channel).map PvInfo.descriptor = (get channel).map ntPayloadDesc

def alarmToPvValue (severity status : Int32) (message : String) : PvValue :=
  .structure "alarm_t"
    [("severity", .scalar (.i32 severity)), ("status", .scalar (.i32 status)), ("message", .scalar (.str message))]

def alarmPv (alarm : NtAlarm) : PvValue := alarmToPvValue alarm.severity alarm.status alarm.message

def timestampPv (ts : NtTimeStamp) : PvValue :=
  .structure "time_t"
    [("secondsPastEpoch", .scalar (.i64 ts.secondsPastEpoch)), ("nanoseconds", .scalar (.i32 ts.nanoseconds)),
      ("userTag", .scalar (.i32 ts.userTag))]

def scalarTimestampPv (ts : Option NtTimeStamp) : PvValue := timestampPv (ts.getD {})

def payloadToFullStructure : NtPayload → PvValue
  | .scalar nt =>
    .structure "epics:nt/NTScalar:1.0"
      [("value", .scalar nt.value), ("alarm", alarmToPvValue nt.alarmSeverity nt.alarmStatus nt.alarmMessage),
        ("timeStamp", scalarTimestampPv nt.timeStamp),
        ("display", .structure "display_t"
          [("limitLow", .scalar (.f64 nt.displayLow)), ("limitHigh", .scalar (.f64 nt.displayHigh)),
            ("description", .scalar (.str nt.displayDescription)), ("units", .scalar (.str nt.units)),
            ("precision", .scalar (.i32 nt.displayPrecision))]),
        ("control", .structure "control_t"
          [("limitLow", .scalar (.f64 nt.controlLow)), ("limitHigh", .scalar (.f64 nt.controlHigh)),
            ("minStep", .scalar (.f64 nt.controlMinStep))])]
  | .scalarArray nt =>
    .structure "epics:nt/NTScalarArray:1.0"
      [("value", .scalarArray nt.value), ("alarm", alarmPv nt.alarm), ("timeStamp", timestampPv nt.timeStamp)]
  | .enum nt =>
    .structure "epics:nt/NTEnum:1.0"
      [("value", .structure "enum_t" [("index", .scalar (.i32 nt.index)), ("choices", .scalarArray (.str nt.choices))]),
        ("alarm", alarmPv nt.alarm), ("timeStamp", timestampPv nt.timeStamp)]
  | .generic structId fields => .structure structId fields
  | _ => .scalar (.i32 0)

def findField (fields : List (String × PvValue)) (name : String) : Option PvValue :=
  match fields with
  | [] => none
  | field :: rest => if field.1 = name then some field.2 else findField rest name

def payloadToValueOnly : NtPayload → PvValue
  | .scalar nt => .scalar nt.value
  | .scalarArray nt => .scalarArray nt.value
  | .enum nt => .scalar (.i32 nt.index)
  | .generic _ fields => (findField fields "value").getD (.scalar (.i32 0))
  | _ => .scalar (.i32 0)

def payloadToMetaOnly : NtPayload → PvValue
  | .scalar nt =>
    .structure "" [("alarm", alarmToPvValue nt.alarmSeverity nt.alarmStatus nt.alarmMessage),
      ("timeStamp", scalarTimestampPv nt.timeStamp)]
  | .scalarArray nt => .structure "" [("alarm", alarmPv nt.alarm), ("timeStamp", timestampPv nt.timeStamp)]
  | .enum nt => .structure "" [("alarm", alarmPv nt.alarm), ("timeStamp", timestampPv nt.timeStamp)]
  | _ => .structure "" []

def payloadToPvValue (payload : NtPayload) : FieldMapping → PvValue
  | .scalar | .any => payloadToFullStructure payload
  | .plain => payloadToValueOnly payload
  | .metaOnly => payloadToMetaOnly payload
  | .proc => .scalar (.i32 0)

def findFieldType (fields : List FieldDesc) (name : String) : Option FieldType :=
  match fields with
  | [] => none
  | field :: rest => if field.name = name then some field.fieldType else findFieldType rest name

/-- The structures whose `value` a plain member takes the type of. -/
def isFlatNt (structId : Option String) : Bool :=
  structId = some "epics:nt/NTScalar:1.0" || structId = some "epics:nt/NTScalarArray:1.0"

def fieldTypeFromDescriptor (desc : StructureDesc) : FieldMapping → FieldType
  | .scalar | .any => .structure desc
  | .plain =>
    if isFlatNt desc.structId then (findFieldType desc.fields "value").getD (.scalar .int32) else .scalar .int32
  | .metaOnly => .structure ⟨none, [⟨"alarm", .structure alarmDesc⟩, ⟨"timeStamp", .structure timestampDesc⟩]⟩
  | .proc => .scalar .int32

section

variable (sources : MemberSources)

/-- The members that contribute a field. -/
def GroupPvDef.shown (group : GroupPvDef) : List GroupMember := group.members.filter fun m => m.mapping ≠ .proc

/-- A member that is not connected reads as zero. -/
def memberValue (m : GroupMember) : PvValue :=
  match sources.get m.channel with
  | some payload => payloadToPvValue payload m.mapping
  | none => .scalar (.i32 0)

def memberType (m : GroupMember) : FieldType :=
  match sources.claim m.channel with
  | some info => fieldTypeFromDescriptor info.descriptor m.mapping
  | none => .scalar .int32

def groupSnapshot (group : GroupPvDef) : NtPayload :=
  .generic (group.structId.getD "structure") (group.shown.map fun m => (m.fieldName, memberValue sources m))

def groupClaimInfo (group : GroupPvDef) : PvInfo where
  descriptor := ⟨group.structId, group.shown.map fun m => ⟨m.fieldName, memberType sources m⟩⟩
  writable := group.members.any fun m =>
    m.mapping ≠ .proc && m.mapping ≠ .metaOnly && ((sources.claim m.channel).map PvInfo.writable).getD false

end

/-- The two builders make the same of a member with this payload. A full member is an
enumeration or a structure of its own, a plain one has the type of its value claimed, and
one of alarm and time has them. -/
def BuiltAlike (payload : NtPayload) : FieldMapping → Prop
  | .scalar | .any =>
    match payload with
    | .enum _ | .generic _ _ => True
    | _ => False
  | .plain =>
    match payload with
    | .generic structId fields =>
      isFlatNt (structIdOf structId) ∨ ∀ v, findField fields "value" = some v → ∃ i, v = .scalar (.i32 i)
    | _ => True
  | .metaOnly =>
    match payload with
    | .scalar _ | .scalarArray _ | .enum _ => True
    | _ => False
  | .proc => True

theorem findFieldType_pvFieldDescs (fields : List (String × PvValue)) (name : String) :
    findFieldType (pvFieldDescs fields) name = (findField fields name).map pvValueFieldType := by
  induction fields with
  | nil => rfl
  | cons field rest ih =>
    rw [pvFieldDescs, findFieldType, findField]
    split_ifs
    · rfl
    · exact ih

theorem fieldType_eq_int32_iff (v : PvValue) : pvValueFieldType v = .scalar .int32 ↔ ∃ i, v = .scalar (.i32 i) := by
  constructor
  · intro same
    cases v with
    | scalar sv => cases sv <;> first | exact ⟨_, rfl⟩ | cases same
    | scalarArray sa => cases sa <;> cases same
    | _ => cases same
  · rintro ⟨i, rfl⟩
    rfl

theorem generic_plain_iff (structId : String) (fields : List (String × PvValue)) :
    pvValueFieldType ((findField fields "value").getD (.scalar (.i32 0))) =
        fieldTypeFromDescriptor (pvValueDesc structId fields) .plain ↔
      isFlatNt (structIdOf structId) ∨ ∀ v, findField fields "value" = some v → ∃ i, v = .scalar (.i32 i) := by
  unfold fieldTypeFromDescriptor pvValueDesc
  dsimp only
  rw [findFieldType_pvFieldDescs]
  split_ifs with flat
  · refine iff_of_true ?_ (Or.inl flat)
    cases findField fields "value" <;> rfl
  · rw [or_iff_right flat]
    cases found : findField fields "value" with
    | none => exact iff_of_true rfl fun _ same => nomatch same
    | some v =>
      rw [Option.getD_some, fieldType_eq_int32_iff]
      exact ⟨fun plain w same => Option.some.inj same ▸ plain, fun plain => plain v rfl⟩

theorem builtAlike_iff (payload : NtPayload) (mapping : FieldMapping) :
    pvValueFieldType (payloadToPvValue payload mapping) = fieldTypeFromDescriptor (ntPayloadDesc payload) mapping ↔
      BuiltAlike payload mapping := by
  have full : pvValueFieldType (payloadToFullStructure payload) = .structure (ntPayloadDesc payload) ↔
      BuiltAlike payload .scalar := by
    cases payload with
    | enum _ | generic _ _ => exact iff_of_true rfl trivial
    | _ => exact iff_of_false (fun same => nomatch same) id
  cases mapping with
  | scalar | any => exact full
  | plain =>
    cases payload with
    | generic structId fields => exact generic_plain_iff structId fields
    | _ => exact iff_of_true rfl trivial
  | metaOnly =>
    cases payload with
    | scalar _ | scalarArray _ => exact iff_of_true rfl trivial
    | enum nt => exact iff_of_true rfl trivial
    | _ => exact iff_of_false (fun same => nomatch same) id
  | proc => exact iff_of_true rfl trivial

variable (sources : MemberSources)

theorem memberType_iff (m : GroupMember) : pvValueFieldType (memberValue sources m) = memberType sources m ↔
    ∀ payload, sources.get m.channel = some payload → BuiltAlike payload m.mapping := by
  have honest := sources.honest m.channel
  unfold memberValue memberType
  cases got : sources.get m.channel with
  | none =>
    rw [got, Option.map_none, Option.map_eq_none_iff] at honest
    rw [honest]
    exact iff_of_true rfl fun _ same => nomatch same
  | some payload =>
    rw [got, Option.map_some] at honest
    obtain ⟨info, claimed, same⟩ := Option.map_eq_some_iff.mp honest
    rw [claimed]
    dsimp only
    rw [same, builtAlike_iff]
    exact ⟨fun alike other equal => Option.some.inj equal ▸ alike, fun alike => alike payload rfl⟩

theorem memberFields_iff (members : List GroupMember) :
    (members.map fun m => (⟨m.fieldName, memberType sources m⟩ : FieldDesc)) =
        pvFieldDescs (members.map fun m => (m.fieldName, memberValue sources m)) ↔
      ∀ m ∈ members, ∀ payload, sources.get m.channel = some payload → BuiltAlike payload m.mapping := by
  induction members with
  | nil => exact iff_of_true rfl fun _ member => absurd member List.not_mem_nil
  | cons m rest ih =>
    rw [List.map_cons, List.map_cons, pvFieldDescs, List.cons.injEq, ih, List.forall_mem_cons, ← memberType_iff]
    refine and_congr_left fun _ => ⟨fun same => ?_, fun same => by rw [same]⟩
    exact (congrArg FieldDescOf.fieldType same).symm

/-- A name that is given and not empty is the one served. -/
theorem structId_iff (structId : Option String) :
    structId = structIdOf (structId.getD "structure") ↔ ∃ id, structId = some id ∧ id ≠ "" := by
  cases structId with
  | none => exact iff_of_false (by decide) fun named => nomatch named.choose_spec.1
  | some id =>
    rw [Option.getD_some, structIdOf]
    by_cases empty : id = ""
    · subst empty
      exact iff_of_false (by decide) fun named => named.choose_spec.2 (Option.some.inj named.choose_spec.1).symm
    · rw [if_neg (by simpa using empty)]
      exact iff_of_true rfl ⟨id, rfl, empty⟩

/-- A group is described as it is served exactly if it has a structure id and the builders
make the same of each of its connected members. -/
theorem group_claim_described_iff (group : GroupPvDef) :
    (groupClaimInfo sources group).descriptor = ntPayloadDesc (groupSnapshot sources group) ↔
      (∃ id, group.structId = some id ∧ id ≠ "") ∧
        ∀ m ∈ group.members, m.mapping ≠ .proc →
          ∀ payload, sources.get m.channel = some payload → BuiltAlike payload m.mapping := by
  have fields := memberFields_iff sources group.shown
  have shown : (∀ m ∈ group.shown, ∀ payload, sources.get m.channel = some payload → BuiltAlike payload m.mapping) ↔
      ∀ m ∈ group.members, m.mapping ≠ .proc →
        ∀ payload, sources.get m.channel = some payload → BuiltAlike payload m.mapping := by
    simp only [GroupPvDef.shown, List.mem_filter, decide_eq_true_eq, and_imp]
  rw [← shown, ← fields, ← structId_iff]
  constructor
  · intro same
    exact ⟨congrArg StructureDescOf.structId same, congrArg StructureDescOf.fields same⟩
  · rintro ⟨id, same⟩
    exact congr (congrArg StructureDescOf.mk id) same

def scalarSources : MemberSources where
  get _ := some (.scalar { value := .f64 ⟨0⟩ })
  claim _ := some ⟨ntScalarDesc (.f64 ⟨0⟩), true⟩
  honest _ := rfl

def oneMember (structId : Option String) (mapping : FieldMapping) : GroupPvDef :=
  ⟨structId, [⟨"a", "REC:A", mapping⟩]⟩

/-- A scalar member is described with the fields of its own PV and served with fewer, and a
group without an id is served with one. -/
theorem group_misdescribed :
    (groupClaimInfo scalarSources (oneMember (some "epics:nt/NTTable:1.0") .scalar)).descriptor ≠
        ntPayloadDesc (groupSnapshot scalarSources (oneMember (some "epics:nt/NTTable:1.0") .scalar)) ∧
      (groupClaimInfo scalarSources (oneMember none .plain)).descriptor ≠
        ntPayloadDesc (groupSnapshot scalarSources (oneMember none .plain)) := by
  constructor
  · intro same
    exact nomatch congrArg StructureDescOf.fields same
  · intro same
    exact nomatch congrArg StructureDescOf.structId same

end Spvirit.Server
