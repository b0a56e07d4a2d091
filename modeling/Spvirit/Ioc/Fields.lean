import Spvirit.Server.FieldPv

/-! The fields of the records of the IOC engine, and the field PVs of both stores. -/

namespace Spvirit.Ioc

open Server

inductive Kind where
  | ai
  | ao
  | bi
  | bo
  | longIn
  | longOut
  deriving DecidableEq, Repr

def Kind.dbName : Kind → String
  | .ai => "ai"
  | .ao => "ao"
  | .bi => "bi"
  | .bo => "bo"
  | .longIn => "longin"
  | .longOut => "longout"

inductive Value where
  | double (v : F64)
  | long (v : Int32)
  | enum (v : UInt16)
  deriving DecidableEq, Repr

/-- The native type of the kind. -/
def Value.Fits : Value → Kind → Prop
  | .double _, .ai | .double _, .ao | .long _, .longIn | .long _, .longOut | .enum _, .bi | .enum _, .bo => True
  | _, _ => False

/-- What processing stores in `VAL`, given the value as a number of each type. -/
def coerceTo (asF64 : F64) (asI32 : Int32) : Kind → Value
  | .ai | .ao => .double asF64
  | .longIn | .longOut => .long asI32
  | .bi | .bo => .enum (if asF64.eq ⟨0⟩ then 0 else 1)

/-- A record as its fields show it: enumerations and links by their texts. Its value is
always of the record's own type. -/
structure Record where
  name : String
  kind : Kind
  val : Value
  fits : val.Fits kind
  desc : String
  egu : String
  scanRaw : String
  evnt : String
  pini : Bool
  phas : Int32
  pact : Bool
  disa : Int32
  disv : Int32
  diss : String
  sdis : String
  flnk : String
  inp : String
  out : String
  dol : String
  closedLoop : Bool
  tse : Int32
  tpro : Bool
  udf : Bool
  sevr : String
  stat : String
  hihi : F64
  high : F64
  low : F64
  lolo : F64
  hhsv : String
  hsv : String
  lsv : String
  llsv : String
  hyst : F64
  mdel : F64
  adel : F64

def valueOf : Value → ScalarValue
  | .double v => .f64 v
  | .long v => .i32 v
  | .enum v => .u16 v

def flag (b : Bool) : ScalarValue := .i32 (if b then 1 else 0)

/-- The arms of `record_field_value`, in its order. -/
def valueTable (r : Record) : List (String × ScalarValue) :=
  [("NAME", .str r.name), ("RTYP", .str r.kind.dbName), ("DTYP", .str "Soft Channel"), ("VAL", valueOf r.val),
    ("DESC", .str r.desc), ("EGU", .str r.egu), ("SCAN", .str r.scanRaw), ("EVNT", .str r.evnt),
    ("PINI", .str (if r.pini then "YES" else "NO")), ("PHAS", .i32 r.phas), ("PACT", flag r.pact),
    ("DISA", .i32 r.disa), ("DISV", .i32 r.disv), ("DISS", .str r.diss), ("SDIS", .str r.sdis), ("FLNK", .str r.flnk),
    ("INP", .str r.inp), ("OUT", .str r.out), ("DOL", .str r.dol),
    ("OMSL", .str (if r.closedLoop then "closed_loop" else "supervisory")), ("TSE", .i32 r.tse), ("TPRO", flag r.tpro),
    ("UDF", flag r.udf), ("SEVR", .str r.sevr), ("STAT", .str r.stat), ("PROC", .i32 0), ("HIHI", .f64 r.hihi),
    ("HIGH", .f64 r.high), ("LOW", .f64 r.low), ("LOLO", .f64 r.lolo), ("HHSV", .str r.hhsv), ("HSV", .str r.hsv),
    ("LSV", .str r.lsv), ("LLSV", .str r.llsv), ("HYST", .f64 r.hyst), ("MDEL", .f64 r.mdel), ("ADEL", .f64 r.adel)]

def recordFieldValue (texts : FieldTexts) (r : Record) (field : String) : Option ScalarValue :=
  match (valueTable r).lookup field with
  | some value => some value
  | none => dbcommonDefaultValue texts field

def valKind : Kind → FieldKind
  | .ai | .ao => .double
  | .longIn | .longOut | .bi | .bo => .int

def strFields : List String :=
  ["NAME", "RTYP", "DTYP", "DESC", "EGU", "SCAN", "EVNT", "PINI", "DISS", "SDIS", "FLNK", "INP", "OUT", "DOL", "OMSL",
    "SEVR", "STAT", "HHSV", "HSV", "LSV", "LLSV"]

def intFields : List String := ["PHAS", "PACT", "DISA", "DISV", "TSE", "TPRO", "UDF", "PROC"]

def doubleFields : List String := ["HIHI", "HIGH", "LOW", "LOLO", "HYST", "MDEL", "ADEL"]

def recordFieldKind (kind : Kind) (field : String) : Option FieldKind :=
  if field = "VAL" then some (valKind kind)
  else if field ∈ strFields then some .str
  else if field ∈ intFields then some .int
  else if field ∈ doubleFields then some .double
  else (dbcommonDefault field).map Prod.fst

/-- An entry of the table other than `VAL` is of a described type, the one of the kind
table. -/
def Agrees (r : Record) (entry : String × ScalarValue) : Prop :=
  entry.1 = "VAL" ∧ entry.2 = valueOf r.val ∨
    entry.1 ≠ "VAL" ∧ Described entry.2 ∧ recordFieldKind r.kind entry.1 = some (fieldKindOf entry.2)

variable {field : String}

theorem agrees_str (r : Record)  (s : String) (listed : field ≠ "VAL" ∧ field ∈ strFields) :
    Agrees r (field, .str s) := by
  refine Or.inr ⟨listed.1, trivial, ?_⟩
  rw [recordFieldKind, if_neg listed.1, if_pos listed.2]
  rfl

theorem agrees_int (r : Record) (v : Int32)
    (listed : field ≠ "VAL" ∧ field ∉ strFields ∧ field ∈ intFields) : Agrees r (field, .i32 v) := by
  refine Or.inr ⟨listed.1, trivial, ?_⟩
  rw [recordFieldKind, if_neg listed.1, if_neg listed.2.1, if_pos listed.2.2]
  rfl

theorem agrees_double (r : Record) (v : F64)
    (listed : field ≠ "VAL" ∧ field ∉ strFields ∧ field ∉ intFields ∧ field ∈ doubleFields) :
    Agrees r (field, .f64 v) := by
  refine Or.inr ⟨listed.1, trivial, ?_⟩
  rw [recordFieldKind, if_neg listed.1, if_neg listed.2.1, if_neg listed.2.2.1, if_pos listed.2.2.2]
  rfl

theorem valueTable_agrees (r : Record) : ∀ entry ∈ valueTable r, Agrees r entry := by
  simp only [valueTable, List.forall_mem_cons]
  and_intros
  all_goals first
    | exact agrees_str r _ (by decide +kernel)
    | exact agrees_int r _ (by decide +kernel)
    | exact agrees_double r _ (by decide +kernel)
    | exact Or.inl ⟨rfl, rfl⟩
    | exact fun _ member => absurd member List.not_mem_nil

def tableFields : List String :=
  ["NAME", "RTYP", "DTYP", "VAL", "DESC", "EGU", "SCAN", "EVNT", "PINI", "PHAS", "PACT", "DISA", "DISV", "DISS", "SDIS",
    "FLNK", "INP", "OUT", "DOL", "OMSL", "TSE", "TPRO", "UDF", "SEVR", "STAT", "PROC", "HIHI", "HIGH", "LOW", "LOLO",
    "HHSV", "HSV", "LSV", "LLSV", "HYST", "MDEL", "ADEL"]

theorem lookup_eq_none (r : Record) (missing : (valueTable r).lookup field = none) :
    field ∉ tableFields := by
  have names : (valueTable r).map Prod.fst = tableFields := rfl
  rw [← names]
  intro listed
  obtain ⟨entry, member, rfl⟩ := List.mem_map.mp listed
  simpa using List.lookup_eq_none_iff.mp missing entry member

theorem recordFieldKind_default (kind : Kind) (outside : field ∉ tableFields) :
    recordFieldKind kind field = (dbcommonDefault field).map Prod.fst := by
  have covered : "VAL" ∈ tableFields ∧ strFields ⊆ tableFields ∧ intFields ⊆ tableFields ∧
      doubleFields ⊆ tableFields := by decide +kernel
  obtain ⟨val, str, int, double⟩ := covered
  have other : field ≠ "VAL" := by
    rintro rfl
    exact outside val
  unfold recordFieldKind
  rw [if_neg other, if_neg fun listed => outside (str listed),
    if_neg fun listed => outside (int listed), if_neg fun listed => outside (double listed)]

theorem dbcommonDefault_outside {default : FieldKind × String} (outside : field ∉ tableFields)
    (found : dbcommonDefault field = some default) : default.1 = .str ∨ default = (.int, "0") := by
  have all : ∀ entry ∈ dbcommonDefaults, entry.1 ∈ tableFields ∨ entry.2.1 = .str ∨ entry.2 = (.int, "0") := by
    decide +kernel
  obtain ⟨before, after, split, _⟩ := List.lookup_eq_some_iff.mp found
  have member : (field, default) ∈ dbcommonDefaults := by
    rw [split]
    exact List.mem_append_right _ List.mem_cons_self
  exact (all _ member).resolve_left outside

/-- The value of a claimed field, and that the kind table has its kind. Only `VAL` may be
of a type that its kind is not described by. -/
theorem recordFieldKind_served (texts : FieldTexts) (r : Record) {kind : FieldKind}
    (claimed : recordFieldKind r.kind field = some kind) :
    ∃ value, recordFieldValue texts r field = some value ∧ fieldKindOf value = kind ∧
      (Described value ↔ ¬ (field = "VAL" ∧ (r.kind = .bi ∨ r.kind = .bo))) := by
  unfold recordFieldValue
  cases found : (valueTable r).lookup field with
  | some value =>
    obtain ⟨before, after, split, _⟩ := List.lookup_eq_some_iff.mp found
    have member : (field, value) ∈ valueTable r := by
      rw [split]
      exact List.mem_append_right _ List.mem_cons_self
    refine ⟨value, rfl, ?_⟩
    rcases valueTable_agrees r _ member with ⟨val, native⟩ | ⟨other, described, table⟩
    · dsimp only at val native
      rw [recordFieldKind, if_pos val] at claimed
      cases claimed
      have fits := r.fits
      rw [native, and_iff_right val]
      generalize r.val = v at fits ⊢
      generalize r.kind = k at fits ⊢
      cases v <;> cases k <;> first | exact fits.elim | simp [valueOf, fieldKindOf, valKind, Described]
    · refine ⟨Option.some.inj (table.symm.trans claimed), iff_of_true described fun val => other val.1⟩
  | none =>
    have outside := lookup_eq_none r found
    rw [recordFieldKind_default r.kind outside] at claimed
    obtain ⟨default, common, rfl⟩ := Option.map_eq_some_iff.mp claimed
    have other : ¬ (field = "VAL" ∧ (r.kind = .bi ∨ r.kind = .bo)) := by
      rintro ⟨rfl, -⟩
      exact outside (by decide)
    refine ⟨typedValue texts default.1 default.2, ?_, ?_, iff_of_true (typedValue_described texts _ _) other⟩
    · dsimp only
      rw [dbcommonDefaultValue, common]
      rfl
    · rcases dbcommonDefault_outside outside common with str | rfl
      · rw [str]
        rfl
      · obtain ⟨zero, parsed⟩ := Option.isSome_iff_exists.mp texts.zero
        simp [typedValue, parsed, fieldKindOf]

/-- The IOC engine as a source: its records and the payload each is served as. -/
structure IocSource where
  lookup : String → Option Record
  toPayload : Record → NtPayload

def fieldIsWritable (field : String) : Bool := field = "SCAN" || field = "EVNT" || field = "PHAS"

namespace IocSource

variable (texts : FieldTexts) (source : IocSource)

def provider : FieldProvider where
  fieldValue base field := (source.lookup base).bind fun r => recordFieldValue texts r field
  fieldDescriptor base field := (source.lookup base).bind fun r => recordFieldKind r.kind field
  fieldWritable := fieldIsWritable

/-- A record name wins over a field reference. -/
def claim (name : String) : Option PvInfo :=
  match source.lookup name with
  | some r => some ⟨ntPayloadDesc (source.toPayload r), true⟩
  | none => (source.provider texts).resolveFieldInfo name

def get (name : String) : Option NtPayload :=
  match source.lookup name with
  | some r => some (source.toPayload r)
  | none => (source.provider texts).resolveFieldPayload name

def BinaryVal (name : String) : Prop :=
  source.lookup name = none ∧ ∃ ref r, parseFieldRef name = some ref ∧ source.lookup ref.base = some r ∧
    ref.field = "VAL" ∧ (r.kind = .bi ∨ r.kind = .bo)

theorem claim_described {name : String} {info : PvInfo} (claimed : source.claim texts name = some info) :
    ∃ payload, source.get texts name = some payload ∧
      (info.descriptor = ntPayloadDesc payload ↔ ¬ source.BinaryVal name) := by
  unfold claim at claimed
  unfold get BinaryVal
  cases known : source.lookup name with
  | some r =>
    rw [known] at claimed
    cases claimed
    exact ⟨_, rfl, iff_of_true rfl fun binary => nomatch binary.1⟩
  | none =>
    rw [known] at claimed
    have agree : ∀ base field kind, (source.provider texts).fieldDescriptor base field = some kind →
        ∃ value, (source.provider texts).fieldValue base field = some value ∧ fieldKindOf value = kind := by
      intro base field kind found
      obtain ⟨r, here, table⟩ := Option.bind_eq_some_iff.mp found
      obtain ⟨value, read, same, _⟩ := recordFieldKind_served texts r table
      exact ⟨value, by simp [provider, here, read], same⟩
    obtain ⟨ref, value, payload, parsed, found, wrapped, described⟩ :=
      (source.provider texts).claim_served agree claimed
    obtain ⟨r, here, read⟩ := Option.bind_eq_some_iff.mp found
    refine ⟨payload, wrapped, described.trans ?_⟩
    obtain ⟨kind, table⟩ : ∃ kind, recordFieldKind r.kind ref.field = some kind := by
      simp only [FieldProvider.resolveFieldInfo, parsed, Option.bind_eq_bind, Option.bind_some,
        Option.bind_eq_some_iff] at claimed
      obtain ⟨kind, found, _⟩ := claimed
      obtain ⟨same, again, table⟩ := Option.bind_eq_some_iff.mp found
      cases here.symm.trans again
      exact ⟨kind, table⟩
    obtain ⟨other, again, _, binary⟩ := recordFieldKind_served texts r table
    cases read.symm.trans again
    rw [binary]
    constructor
    · rintro plain ⟨-, ref', r', parsed', here', val, kinds⟩
      cases parsed.symm.trans parsed'
      cases here.symm.trans here'
      exact plain ⟨val, kinds⟩
    · exact fun plain val => plain ⟨rfl, ref, r, parsed, here, val.1, val.2⟩

end IocSource

/-- The name is the `VAL` field of a record of the store whose value is of a type that its
kind is not described by. -/
def UndescribedVal (records : String → Option StoredRecord) (name : String) : Prop :=
  ∃ ref record, parseFieldRef name = some ref ∧ records ref.base = some record ∧
    ref.field = "VAL" ∧ ¬ Described record.data.currentValue

/-- What a store claims for a field PV is what it serves, but for `VAL` of a binary record
of the engine and for `VAL` of another type than a string, an `int` or a `double`. -/
theorem field_claim_served_iff (texts : FieldTexts) :
    (∀ (source : IocSource) (name : String) (info : PvInfo), source.claim texts name = some info →
      ∃ payload, source.get texts name = some payload ∧
        (info.descriptor = ntPayloadDesc payload ↔ ¬ source.BinaryVal name)) ∧
    ∀ (records : String → Option StoredRecord) (name : String) (info : PvInfo),
      (storeProvider texts records).resolveFieldInfo name = some info →
        ∃ payload, (storeProvider texts records).resolveFieldPayload name = some payload ∧
          (info.descriptor = ntPayloadDesc payload ↔ ¬ UndescribedVal records name) := by
  refine ⟨fun source name info claimed => source.claim_described texts claimed, ?_⟩
  intro records name info claimed
  have agree : ∀ base field kind, (storeProvider texts records).fieldDescriptor base field = some kind →
      ∃ value, (storeProvider texts records).fieldValue base field = some value ∧ fieldKindOf value = kind :=
    fun base field kind found => Option.map_eq_some_iff.mp found
  obtain ⟨ref, value, payload, parsed, found, wrapped, described⟩ :=
    (storeProvider texts records).claim_served agree claimed
  obtain ⟨record, here, read⟩ := Option.bind_eq_some_iff.mp found
  refine ⟨payload, wrapped, described.trans ((storedFieldValue_described_iff texts read).trans ?_)⟩
  constructor
  · rintro plain ⟨ref', record', parsed', here', val, odd⟩
    cases parsed.symm.trans parsed'
    cases here.symm.trans here'
    exact odd (plain val)
  · intro plain val
    by_contra odd
    exact plain ⟨ref, record, parsed, here, val, odd⟩

/-- Texts among which zero is the only number. -/
def plainTexts : FieldTexts where
  parseI32 raw := if raw = "0" then some 0 else none
  parseF64 _ := none
  canonicalLinkText _ _ := none
  zero := by decide

/-- A record with nothing set but its value. -/
def bareRecord (kind : Kind) (val : Value) (fits : val.Fits kind) : Record where
  name := "R"
  kind := kind
  val := val
  fits := fits
  desc := ""
  egu := ""
  scanRaw := "Passive"
  evnt := ""
  pini := false
  phas := 0
  pact := false
  disa := 0
  disv := 1
  diss := "NO_ALARM"
  sdis := ""
  flnk := ""
  inp := ""
  out := ""
  dol := ""
  closedLoop := false
  tse := 0
  tpro := false
  udf := true
  sevr := "INVALID"
  stat := "UDF"
  hihi := ⟨0⟩
  high := ⟨0⟩
  low := ⟨0⟩
  lolo := ⟨0⟩
  hhsv := "NO_ALARM"
  hsv := "NO_ALARM"
  lsv := "NO_ALARM"
  llsv := "NO_ALARM"
  hyst := ⟨0⟩
  mdel := ⟨0⟩
  adel := ⟨0⟩

def oneRecord (r : Record) : IocSource where
  lookup name := if name = "R" then some r else none
  toPayload r := .scalar { value := valueOf r.val }

def analogSource : IocSource := oneRecord (bareRecord .ai (.double ⟨0⟩) trivial)

def binarySource : IocSource := oneRecord (bareRecord .bi (.enum 1) trivial)

theorem parse_val : parseFieldRef "R.VAL" = some ⟨"R", "VAL", false⟩ := by decide +kernel

theorem analog_claim_served : ∃ info payload, analogSource.claim plainTexts "R.VAL" = some info ∧
    analogSource.get plainTexts "R.VAL" = some payload ∧ info.descriptor = ntPayloadDesc payload := by
  have claimed : analogSource.claim plainTexts "R.VAL" = some ⟨ntScalarDesc (.f64 ⟨0⟩), false⟩ := by
    simp only [IocSource.claim, FieldProvider.resolveFieldInfo, parse_val]
    rfl
  obtain ⟨payload, served, described⟩ := (field_claim_served_iff plainTexts).1 analogSource "R.VAL" _ claimed
  refine ⟨_, payload, claimed, served, described.mpr ?_⟩
  rintro ⟨-, ref, r, parsed, here, -, kinds⟩
  cases parse_val.symm.trans parsed
  cases here
  rcases kinds with kind | kind <;> cases kind

/-- `VAL` of a binary record is claimed as an `int` and served as a `ushort`, and `VAL` of
a store's boolean record is claimed as an `int` and served as a `boolean`. -/
theorem binary_claim_misdescribes :
    (∃ info payload, binarySource.claim plainTexts "R.VAL" = some info ∧
      binarySource.get plainTexts "R.VAL" = some payload ∧ info.descriptor ≠ ntPayloadDesc payload) ∧
    let provider := storeProvider plainTexts fun name =>
      if name = "R" then some ⟨"R", "bo", "", fun _ => none, .scalar { value := .bool true }⟩ else none
    ∃ info payload, provider.resolveFieldInfo "R.VAL" = some info ∧
      provider.resolveFieldPayload "R.VAL" = some payload ∧ info.descriptor ≠ ntPayloadDesc payload := by
  constructor
  · refine ⟨⟨ntScalarDesc (.i32 0), false⟩, .scalar { value := .u16 1 }, ?_, ?_, ?_⟩
    · simp only [IocSource.claim, FieldProvider.resolveFieldInfo, parse_val]
      rfl
    · simp only [IocSource.get, FieldProvider.resolveFieldPayload, parse_val]
      rfl
    · intro same
      cases ntScalarDesc_inj same
  · refine ⟨⟨ntScalarDesc (.i32 0), false⟩, .scalar { value := .bool true }, ?_, ?_, ?_⟩
    · simp only [FieldProvider.resolveFieldInfo, parse_val]
      rfl
    · simp only [FieldProvider.resolveFieldPayload, parse_val]
      rfl
    · intro same
      cases ntScalarDesc_inj same

end Spvirit.Ioc
