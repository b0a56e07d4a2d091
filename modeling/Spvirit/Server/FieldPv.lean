import Spvirit.Payload.Descriptors
import Spvirit.Server.Record

/-! The fields of a record as PVs of their own: `<base>.<FIELD>`, and `<base>.<FIELD>$`
for a string as an array of its bytes. -/

namespace Spvirit.Server

structure FieldRef where
  base : String
  field : String
  /-- The `$` form. -/
  longString : Bool
  deriving DecidableEq, Repr

inductive FieldKind where
  | str
  | int
  | double
  deriving DecidableEq, Repr

/-- The part before the last `c` and the part after it. -/
def rsplitOnce (c : Char) : List Char → Option (List Char × List Char)
  | [] => none
  | x :: rest =>
    match rsplitOnce c rest with
    | some (before, after) => some (x :: before, after)
    | none => if x = c then some ([], rest) else none

/-- A `$` at the end is taken off. -/
def stripDollar (part : List Char) : List Char × Bool :=
  if part.getLast? = some '$' then (part.dropLast, true) else (part, false)

def isFieldChar (c : Char) : Bool := ('A' ≤ c && c ≤ 'Z') || ('0' ≤ c && c ≤ '9')

def parseFieldRef (name : String) : Option FieldRef :=
  match rsplitOnce '.' name.toList with
  | none => none
  | some (base, part) =>
    if base = [] then none
    else
      let (field, longString) := stripDollar part
      if field = [] ∨ ¬ field.all isFieldChar then none
      else some ⟨String.ofList base, String.ofList field, longString⟩

/-- `DBCOMMON_DEFAULTS`: the fields of every record, their kinds and their defaults. -/
def dbcommonDefaults : List (String × FieldKind × String) :=
  [("DESC", .str, ""), ("SCAN", .str, "Passive"), ("PINI", .str, "NO"), ("PHAS", .int, "0"), ("EVNT", .str, ""),
    ("PRIO", .str, "LOW"), ("DISV", .int, "1"), ("DISA", .int, "0"), ("SDIS", .str, ""), ("DISS", .str, "NO_ALARM"),
    ("PROC", .int, "0"), ("STAT", .str, "UDF"), ("SEVR", .str, "INVALID"), ("UDF", .int, "1"), ("TPRO", .int, "0"),
    ("FLNK", .str, ""), ("ADEL", .double, "0"), ("MDEL", .double, "0"), ("TSE", .int, "0"), ("DISP", .int, "0"),
    ("ACKS", .str, "NO_ALARM"), ("ACKT", .str, "YES"), ("ASG", .str, "")]

def dbcommonDefault (field : String) : Option (FieldKind × String) := dbcommonDefaults.lookup field

/-- How texts are read: numbers by `trim` and `parse`, links by `canonical_link_text`. -/
structure FieldTexts where
  parseI32 : String → Option Int32
  parseF64 : String → Option F64
  canonicalLinkText : String → Bool → Option String
  /-- Zero is a number. -/
  zero : (parseI32 "0").isSome

variable (texts : FieldTexts)

def typedValue (kind : FieldKind) (raw : String) : ScalarValue :=
  match kind with
  | .int =>
    match texts.parseI32 raw with
    | some v => .i32 v
    | none => .str raw
  | .double =>
    match texts.parseF64 raw with
    | some v => .f64 v
    | none => .str raw
  | .str => .str raw

def dbcommonDefaultValue (field : String) : Option ScalarValue :=
  (dbcommonDefault field).map fun default => typedValue texts default.1 default.2

def fieldKindOf : ScalarValue → FieldKind
  | .str _ => .str
  | .f32 _ | .f64 _ => .double
  | _ => .int

def descriptorForKind (kind : FieldKind) (longString : Bool) : Option StructureDesc :=
  if longString then
    if kind = .str then some (ntPayloadDesc (.scalarArray { value := .i8 [] })) else none
  else
    let probe : ScalarValue := match kind with
      | .str => .str ""
      | .int => .i32 0
      | .double => .f64 ⟨0⟩
    some (ntPayloadDesc (.scalar { value := probe }))

def payloadForValue (value : ScalarValue) (desc : String) (longString : Bool) : Option NtPayload :=
  if longString then
    match value with
    | .str s => some (.scalarArray { value := .i8 (s.toUTF8.toList.map UInt8.toInt8) })
    | _ => none
  else some (.scalar { value := value, displayDescription := desc })

/-- What a store tells about the fields of its records. -/
structure FieldProvider where
  fieldValue : String → String → Option ScalarValue
  fieldDescriptor : String → String → Option FieldKind
  fieldWritable : String → Bool

structure PvInfo where
  descriptor : StructureDesc
  writable : Bool

namespace FieldProvider

variable (provider : FieldProvider)

def resolveFieldPayload (name : String) : Option NtPayload := do
  let ref ← parseFieldRef name
  let value ← provider.fieldValue ref.base ref.field
  let desc := match provider.fieldValue ref.base "DESC" with
    | some (.str s) => s
    | _ => ""
  payloadForValue value desc ref.longString

def resolveFieldInfo (name : String) : Option PvInfo := do
  let ref ← parseFieldRef name
  let kind ← provider.fieldDescriptor ref.base ref.field
  let descriptor ← descriptorForKind kind ref.longString
  return ⟨descriptor, provider.fieldWritable ref.field⟩

end FieldProvider

/-- A value of the type its kind is described by. -/
def Described : ScalarValue → Prop
  | .str _ | .i32 _ | .f64 _ => True
  | _ => False

theorem ntScalarDesc_inj {v w : ScalarValue} (same : ntScalarDesc v = ntScalarDesc w) :
    scalarFieldType v = scalarFieldType w := by
  have fields := congrArg StructureDescOf.fields same
  exact congrArg FieldDescOf.fieldType (List.cons.inj fields).1

/-- The descriptor claimed for a value's kind describes its payload exactly if the value
is of a described type, and a kind that is claimed is served. -/
theorem descriptor_served {value : ScalarValue} {longString : Bool} {descriptor : StructureDesc} (desc : String)
    (claimed : descriptorForKind (fieldKindOf value) longString = some descriptor) :
    ∃ payload, payloadForValue value desc longString = some payload ∧
      (descriptor = ntPayloadDesc payload ↔ Described value) := by
  unfold descriptorForKind at claimed
  unfold payloadForValue
  cases longString with
  | true =>
    cases value with
    | str s =>
      cases claimed
      exact ⟨_, rfl, iff_of_true rfl trivial⟩
    | _ => cases claimed
  | false =>
    refine ⟨_, rfl, ?_⟩
    cases claimed
    cases value with
    | str _ | i32 _ | f64 _ => exact iff_of_true rfl trivial
    | _ => exact iff_of_false (fun same => nomatch ntScalarDesc_inj same) id

/-- The parts of a record its fields are read from. -/
structure StoredRecord where
  name : String
  /-- `record_type_name` -/
  typeName : String
  desc : String
  /-- The fields as the `.db` has them. -/
  rawFields : String → Option String
  data : RecordData

def linkFields : List String := ["INP", "OUT", "DOL", "SDIS", "FLNK"]

/-- A field the record gives as text, or a default of every record. -/
def rawFieldValue (record : StoredRecord) (field : String) : Option ScalarValue :=
  match record.rawFields field with
  | some raw =>
    match if field ∈ linkFields then texts.canonicalLinkText raw (field = "FLNK") else none with
    | some rendered => some (.str rendered)
    | none => some (typedValue texts (((dbcommonDefault field).map Prod.fst).getD .str) raw)
  | none => if field = "DESC" then some (.str record.desc) else dbcommonDefaultValue texts field

/-- `record_fields::field_value` -/
def storedFieldValue (record : StoredRecord) (field : String) : Option ScalarValue :=
  if field = "RTYP" then some (.str record.typeName)
  else if field = "NAME" then some (.str record.name)
  else if field = "VAL" then some record.data.currentValue
  else if field = "DTYP" then some (.str ((record.rawFields "DTYP").getD "Soft Channel"))
  else rawFieldValue texts record field

/-- `SimplePvStore` as a provider: the kind is that of the value read. -/
def storeProvider (records : String → Option StoredRecord) : FieldProvider where
  fieldValue base field := (records base).bind fun record => storedFieldValue texts record field
  fieldDescriptor base field :=
    ((records base).bind fun record => storedFieldValue texts record field).map fieldKindOf
  fieldWritable _ := false

theorem typedValue_described (kind : FieldKind) (raw : String) : Described (typedValue texts kind raw) := by
  unfold typedValue
  split
  · split <;> trivial
  · split <;> trivial
  · trivial

theorem rawFieldValue_described {record : StoredRecord} {field : String} {value : ScalarValue}
    (found : rawFieldValue texts record field = some value) : Described value := by
  unfold rawFieldValue at found
  split at found
  · split at found
    · cases found
      trivial
    · cases found
      exact typedValue_described texts _ _
  · split_ifs at found
    · cases found
      trivial
    · obtain ⟨default, _, rfl⟩ := Option.map_eq_some_iff.mp found
      exact typedValue_described texts _ _

/-- Only `VAL` may be of a type that its kind is not described by. -/
theorem storedFieldValue_described_iff {record : StoredRecord} {field : String} {value : ScalarValue}
    (found : storedFieldValue texts record field = some value) :
    Described value ↔ (field = "VAL" → Described record.data.currentValue) := by
  unfold storedFieldValue at found
  split_ifs at found with type name val dtyp
  · cases found
    exact iff_of_true trivial fun same => absurd (type.symm.trans same) (by decide)
  · cases found
    exact iff_of_true trivial fun same => absurd (name.symm.trans same) (by decide)
  · cases found
    exact ⟨fun described _ => described, fun described => described val⟩
  · cases found
    exact iff_of_true trivial fun same => absurd (dtyp.symm.trans same) (by decide)
  · exact iff_of_true (rawFieldValue_described texts found) fun same => absurd same val

/-- The value of a field that is claimed is read, and the kind claimed is that of the value. -/
theorem FieldProvider.claim_served (provider : FieldProvider)
    (agree : ∀ base field kind, provider.fieldDescriptor base field = some kind →
      ∃ value, provider.fieldValue base field = some value ∧ fieldKindOf value = kind)
    {name : String} {info : PvInfo} (claimed : provider.resolveFieldInfo name = some info) :
    ∃ ref value payload, parseFieldRef name = some ref ∧ provider.fieldValue ref.base ref.field = some value ∧
      provider.resolveFieldPayload name = some payload ∧
      (info.descriptor = ntPayloadDesc payload ↔ Described value) := by
  simp only [FieldProvider.resolveFieldInfo, Option.bind_eq_bind, Option.bind_eq_some_iff, Option.pure_def,
    Option.some.injEq] at claimed
  obtain ⟨ref, parsed, kind, described, descriptor, probe, rfl⟩ := claimed
  obtain ⟨value, found, rfl⟩ := agree ref.base ref.field kind described
  have served := fun desc => descriptor_served desc probe
  unfold FieldProvider.resolveFieldPayload
  simp only [parsed, found, Option.bind_eq_bind, Option.bind_some]
  obtain ⟨payload, wrapped, same⟩ := served _
  exact ⟨ref, value, payload, rfl, found, wrapped, same⟩

end Spvirit.Server
