import Spvirit.Ioc.Lockset
import Spvirit.Ioc.Trail

/-! The load-time graph of the links, and the records that it reports as unreachable. -/

namespace Spvirit.Ioc.Engine

open Fallible

/-- Inbound degree above which a record is worth mentioning. -/
def fanOutThreshold : Nat := 10

/-- Which link field produced an edge. -/
inductive EdgeKind where
  | inp
  | out
  | dol
  | flnk
  | sdis
  deriving DecidableEq, Repr

def EdgeKind.rank : EdgeKind → Nat
  | inp => 0
  | out => 1
  | dol => 2
  | flnk => 3
  | sdis => 4

/-- The fields of the links of a record, in their order. -/
def linkFields : List EdgeKind := [.inp, .out, .dol, .flnk, .sdis]

structure GraphEdge where
  source : String
  target : String
  kind : EdgeKind
  processesTarget : Bool
  deriving DecidableEq, Repr

def GraphEdge.le (a b : GraphEdge) : Bool :=
  a.source < b.source || a.source = b.source &&
    (a.target < b.target || a.target = b.target && a.kind.rank ≤ b.kind.rank)

structure DependencyGraph where
  edges : List GraphEdge
  lockSets : List (List String)
  unreachable : List String
  highFanOut : List (String × Nat)
  unresolved : List String
  deriving DecidableEq, Repr

namespace RecordDb

variable (db : RecordDb)

def nameOf (id : RecordId) : String := ((db.lockSets[id.set]?.bind (·[id.slot]?)).map Config.name).getD ""

/-- A forward link always processes its target; the others only do when `PP` is set. -/
def graphEdge (cfg : Config RecordId) : EdgeKind × Link RecordId → Option GraphEdge
  | (kind, .db id _ processPassive _) =>
    some { source := cfg.name, target := db.nameOf id, kind, processesTarget := kind = .flnk || processPassive }
  | (_, .constant _) | (_, .unresolved _) => none

def graphEdges : List GraphEdge :=
  db.lockSets.flatten.flatMap fun cfg => (linkFields.zip (linksOf cfg)).filterMap (db.graphEdge cfg)

/-- A record of the name processes without being asked. -/
def selfProcessing (name : String) : Bool :=
  db.lockSets.flatten.any fun cfg => cfg.name = name && (cfg.pini || cfg.scanRaw.toLower ≠ "passive")

def processedBySomeone (edges : List GraphEdge) (name : String) : Bool :=
  edges.any fun edge => edge.processesTarget && edge.target = name

def highFanOut (edges : List GraphEdge) : List (String × Nat) :=
  let targets := edges.map GraphEdge.target
  ((dedup (targets.mergeSort fun a b => a ≤ b)).map fun name => (name, targets.count name)).filter fun entry =>
    fanOutThreshold < entry.2

def dependencyGraph : DependencyGraph :=
  let edges := db.graphEdges.mergeSort GraphEdge.le
  { edges
    lockSets := db.lockSets.map (·.map Config.name)
    unreachable := (db.names.filter fun name => !db.selfProcessing name && !processedBySomeone edges name).mergeSort
      fun a b => a ≤ b
    highFanOut := highFanOut edges
    unresolved := db.unresolved }

variable {db} {set : Nat} {members : List (Config RecordId)}

theorem mem_unreachable {name : String} : name ∈ db.dependencyGraph.unreachable ↔
    name ∈ db.names ∧ db.selfProcessing name = false ∧ processedBySomeone db.graphEdges name = false := by
  simp only [dependencyGraph, List.mem_mergeSort, List.mem_filter, Bool.and_eq_true, Bool.not_eq_true',
    processedBySomeone, List.any_eq_false]

theorem mem_names_build {n : Nat} {records : Fin n → Config String} (i : Fin n) :
    (records i).name ∈ (build records).names := by
  simp only [build, mem_dedup, List.mem_mergeSort, List.mem_map, List.mem_finRange, true_and]
  exact ⟨i, rfl⟩

theorem not_processed_of_unreachable (stored : db.lockSets[set]? = some members) {t : Fin members.length}
    (listed : (members.get t).name ∈ db.dependencyGraph.unreachable) {i : Fin members.length} {kind : EdgeKind}
    {field : Field} {pp ms : Bool}
    (link : (kind, Link.db t field pp ms) ∈ linkFields.zip (linksOf (db.wired stored i))) : kind ≠ .flnk ∧ pp = false := by
  have kept : (kind, Link.db ⟨set, t⟩ field pp ms) ∈ linkFields.zip (linksOf (members.get i)) := by
    rw [← db.wired_links stored i, List.zip_map_right, List.mem_map]
    exact ⟨_, link, rfl⟩
  have name : db.nameOf ⟨set, t⟩ = (members.get t).name := by
    simp [nameOf, stored]
  have edge : (⟨(members.get i).name, (members.get t).name, kind, kind = .flnk || pp⟩ : GraphEdge) ∈ db.graphEdges := by
    simp only [graphEdges, List.mem_flatMap, List.mem_flatten, List.mem_filterMap]
    exact ⟨_, ⟨members, List.mem_of_getElem? stored, List.get_mem ..⟩, _, kept, by simp [graphEdge, name]⟩
  have unprocessed := List.any_eq_false.mp (mem_unreachable.mp listed).2.2 _ edge
  simpa using unprocessed

end RecordDb

section

variable {n : Nat} {ω : Type} {db : Fin n → Config (Fin n)} {host : Host n ω} {t : Fin n}

/-- The record never gets past its disable check: it is processed for it, or is compared with
itself. -/
def Barred (db : Fin n → Config (Fin n)) (r : Fin n) : Prop :=
  SdisEdge db r r ∨ ∃ pp ms, (db r).sdis = .db r .disv pp ms

/-- The record's output is to `PROC` of another, and its body can run. -/
structure Pokes (db : Fin n → Config (Fin n)) (r t : Fin n) : Prop where
  output : (db r).kind.isOutput = true
  link : ∃ pp ms, (db r).out = .db t .proc pp ms
  runs : ¬Barred db r

/-- The record is not entered. -/
def Spares (t : Fin n) (s u : Pass n ω) : Prop := ∃ marks, u.log = s.log ++ marks ∧ ∀ stack, Mark.entered t stack ∉ marks

namespace Spares

variable {s u v : Pass n ω}

theorem trans (first : Spares t s u) (second : Spares t u v) : Spares t s v := by
  obtain ⟨marks, log, spared⟩ := first
  obtain ⟨marks', log', spared'⟩ := second
  refine ⟨marks ++ marks', by rw [log', log, List.append_assoc], fun stack member => ?_⟩
  exact (List.mem_append.mp member).elim (spared stack) (spared' stack)

theorem of_quiet (quiet : Quiet s u) : Spares t s u := by
  obtain ⟨marks, log, silent, _⟩ := quiet.log
  exact ⟨marks, log, fun stack member => Bool.false_ne_true (silent _ member)⟩

theorem of_mark {m : Mark n} (log : u.log = s.log ++ [m]) (other : ∀ stack, .entered t stack ≠ m) : Spares t s u :=
  ⟨[m], log, fun stack member => other stack (List.mem_singleton.mp member)⟩

theorem of_same (log : u.log = s.log) : Spares t s u := ⟨[], by rw [log, List.append_nil], by simp⟩

theorem uniform (db : Fin n → Config (Fin n)) (t : Fin n) :
    Uniform db (· ≠ t) (Spares t : Pass n ω → Pass n ω → Prop) where
  body own := (quiet_body db own).weaken of_quiet trans fun _ _ => trivial
  check own := (quiet_check db own).weaken of_quiet trans fun _ _ => trivial
  enter id s other := of_mark rfl fun stack same => other (by injection same with same; exact same.symm)
  popDepth s := of_same rfl
  raisePact _ s := of_same rfl
  join _ s := of_same rfl
  pending _ s := of_mark rfl (by simp)
  giveUp _ s := of_mark rfl (by simp)
  complete _ s := of_mark rfl (by simp)

end Spares

theorem processInner_of_check_error {r j : Fin n} {process : Fin n → Action n ω Unit} {s u : Pass n ω} {e : ProcError}
    (edge : SdisEdge db r j) (failed : process j (s.traceLine db r ": process entered") = (.error e, u)) :
    processInner db host r process s = (.error e, u) := by
  have checked : readSdis db r process (s.traceLine db r ": process entered") = (.error e, u) := by
    unfold readSdis
    rw [Link.Processes.isConstant edge, if_neg Bool.false_ne_true]
    obtain ⟨field, ms, link⟩ := edge
    rw [link]
    exact bind_error (bind_error failed)
  exact (bind_ok rfl).trans (bind_error checked)

/-- A record that is processed for its own check uses up the depth. -/
theorem visit_fails {r : Fin n} (edge : SdisEdge db r r) (fuel : Nat) (s : Pass n ω) (idle : (s.cells r).pact = false) :
    ∃ e u, visit db host fuel r s = (.error e, u) := by
  induction fuel generalizing s with
  | zero =>
    refine ⟨.tooDeep maxDepth (db r).name, s, ?_⟩
    unfold visit guarded
    rw [if_neg (by simp [idle])]
    rfl
  | succ fuel ih =>
    unfold visit guarded
    rw [if_neg (by simp [idle])]
    by_cases full : maxDepth ≤ s.depth
    · exact ⟨_, _, nested_full full⟩
    · have kept : (((s.enter r).traceLine db r ": process entered").cells r).pact = false :=
        ((quiet_plainly db).traceLine r _ (s.enter r)).pact r |>.trans idle
      obtain ⟨e, u, failed⟩ := ih _ kept
      rw [nested_room (by omega), processInner_of_check_error edge failed]
      exact ⟨e, u.popDepth, rfl⟩

theorem processInner_compared {r : Fin n} {process : Fin n → Action n ω Unit} {ms : Bool}
    (link : (db r).sdis = .db r .disv false ms) (s : Pass n ω) :
    ∃ value, processInner db host r process s =
      (.ok (), ((s.traceLine db r ": process entered").write db r .disa value).disable db r) := by
  let entered := s.traceLine db r ": process entered"
  let value := ((entered.cells r).readField .disv).coerceTo .longIn
  have checked : readSdis db r process entered = (.ok (), entered.write db r .disa value) := by
    unfold readSdis
    rw [link]
    rfl
  have same : ((entered.write db r .disa value).cells r).disa = ((entered.write db r .disa value).cells r).disv := by
    simp only [Pass.write, Pass.update, Function.update_self]
    rfl
  refine ⟨value, (bind_ok rfl).trans ((bind_ok checked).trans ((bind_ok rfl).trans ?_))⟩
  rw [if_pos same]
  rfl

theorem visit_spares (unasked : ∀ r, r ≠ t → ¬SdisEdge db r t) (barred : ∀ r, r ≠ t → BodyEdge db r t → Barred db r)
    (fuel : Nat) (r : Fin n) (other : r ≠ t) (s : Pass n ω) : Spares t s (visit db host fuel r s).2 := by
  have uniform := @Spares.uniform n ω db t
  induction fuel generalizing r s with
  | zero =>
    unfold visit guarded
    split_ifs
    · exact (uniform.body r).traceLine r _ s
    · exact .of_same rfl
  | succ fuel ih =>
    unfold visit guarded
    split_ifs with active
    · exact (uniform.body r).traceLine r _ s
    by_cases full : maxDepth ≤ s.depth
    · rw [nested_full full]
      exact .of_same rfl
    rw [nested_room (by omega)]
    refine ((uniform.enter r s other).trans ?_).trans (uniform.popDepth _)
    have traced := (uniform.body r).traceLine r ": process entered" (s.enter r)
    by_cases stops : Barred db r
    · by_cases own : SdisEdge db r r
      · have idle : (((s.enter r).traceLine db r ": process entered").cells r).pact = false :=
          (((quiet_plainly db).traceLine r _ (s.enter r)).pact r).trans
            (Bool.eq_false_iff.mpr active)
        obtain ⟨e, u, failed⟩ := visit_fails own fuel _ idle
        have spared := ih r other ((s.enter r).traceLine db r ": process entered")
        rw [failed] at spared
        rw [processInner_of_check_error own failed]
        exact traced.trans spared
      · obtain ⟨pp, ms, link⟩ := stops.resolve_left own
        cases pp with
        | true => exact absurd ⟨.disv, ms, link⟩ own
        | false =>
          obtain ⟨value, result⟩ := @processInner_compared n ω db host r (visit db host fuel) ms link (s.enter r)
          rw [result]
          exact (traced.trans (.of_quiet (quiet_write r .disa value _))).trans ((uniform.check r).disable _)
    · refine (processInner_moves host uniform (fun j edge => .of_moved (ih j fun same => ?_)) (s.enter r)).moved
      subst same
      exact edge.elim (unasked r other) fun body => stops (barred r other body)

def Link.valueIn (cells : Fin n → Cells) (kind : Kind) : Link (Fin n) → Value
  | .constant v => v.coerceTo kind
  | .unresolved _ => .defaultFor kind
  | .db target field _ _ => ((cells target).readField field).coerceTo kind

theorem traceLine_cells (r : Fin n) (text : String) (s : Pass n ω) : (s.traceLine db r text).cells = s.cells := by
  unfold Pass.traceLine
  split_ifs <;> rfl

theorem visit_active {fuel : Nat} {j : Fin n} {s : Pass n ω} (active : (s.cells j).pact = true) :
    visit db host fuel j s = (.ok (), s.traceLine db j ": PACT already set, returning") := by
  cases fuel <;> exact if_pos active

theorem fetchLinkValue_active {fuel : Nat} {link : Link (Fin n)} {s : Pass n ω} (kind : Kind)
    (active : ∀ j, link.Processes j → (s.cells j).pact = true) :
    ∃ severity u, fetchLinkValue (visit db host fuel) link kind s = (.ok (link.valueIn s.cells kind, severity), u) ∧
      u.cells = s.cells ∧ Quiet s u := by
  cases link with
  | constant _ | unresolved _ => exact ⟨_, s, rfl, rfl, .refl s⟩
  | db target field pp ms =>
    cases pp with
    | false => exact ⟨_, s, rfl, rfl, .refl s⟩
    | true =>
      have cells := @traceLine_cells n ω db target ": PACT already set, returning" s
      refine ⟨if ms then (s.cells target).sevr else .noAlarm, _,
        (bind_ok (visit_active (active target ⟨field, ms, rfl⟩))).trans ?_, cells,
        (quiet_plainly db).traceLine target _ s⟩
      rw [readLink, cells]
      rfl

namespace Poke

/-- What the disable check of a record reads of cells that were never processed. -/
def seen (db : Fin n → Config (Fin n)) (r : Fin n) : Int32 :=
  if (db r).sdis.isConstant then 0 else ((db r).sdis.valueIn (fun _ => {}) .longIn).asI32

/-- Only the two records are not active, and the first is not disabled. -/
def cells (db : Fin n → Config (Fin n)) (r t : Fin n) (j : Fin n) : Cells :=
  if j = r then { disv := seen db r + 1 } else { pact := j ≠ t }

def start (db : Fin n → Config (Fin n)) (r t : Fin n) : Pass n Unit := { cells := cells db r t, world := () }

variable {r : Fin n}

theorem cells_pact (j : Fin n) : (cells db r t j).pact = true ↔ j ≠ r ∧ j ≠ t := by
  unfold cells
  by_cases same : j = r
  · simp [same]
  · simp [same]

theorem seen_eq (runs : ¬Barred db r) (linked : (db r).sdis.isConstant = false) :
    ((db r).sdis.valueIn (cells db r t) .longIn).asI32 = seen db r := by
  rw [seen, linked, if_neg Bool.false_ne_true]
  cases link : (db r).sdis with
  | constant _ | unresolved _ => rfl
  | db j field pp ms =>
    simp only [Link.valueIn, cells]
    split_ifs with own
    · subst own
      cases field with
      | disv => exact absurd (Or.inr ⟨pp, ms, link⟩) runs
      | _ => rfl
    · cases field <;> rfl

theorem readSdis_passes (poke : Pokes db r t) (other : r ≠ t) (unasked : ¬SdisEdge db r t) {fuel : Nat} {s : Pass n Unit}
    (start : s.cells = cells db r t) :
    ∃ u, readSdis db r (visit db (plainHost n) fuel) s = (.ok (), u) ∧ (u.cells r).disa ≠ (u.cells r).disv ∧
      (∀ j, (u.cells j).pact = (cells db r t j).pact) ∧ u.depth = s.depth := by
  have own : (cells db r t r).disa = 0 ∧ (cells db r t r).disv = seen db r + 1 := by simp [cells]
  unfold readSdis
  split_ifs with linked
  · refine ⟨s, rfl, ?_, fun j => by rw [start], rfl⟩
    rw [start, own.1, own.2, seen, if_pos linked]
    decide
  · have active (j : Fin n) (edge : (db r).sdis.Processes j) : (s.cells j).pact = true := by
      rw [start, cells_pact]
      refine ⟨?_, ?_⟩
      · rintro rfl
        exact poke.runs (Or.inl edge)
      · rintro rfl
        exact unasked edge
    obtain ⟨severity, u, fetched, kept, quiet⟩ := @fetchLinkValue_active n Unit db (plainHost n) fuel _ s .longIn active
    have written := @quiet_write n Unit db r .disa ((db r).sdis.valueIn s.cells .longIn) u
    refine ⟨_, bind_ok fetched, ?_, fun j => ?_, written.depth.trans quiet.depth⟩
    · have read := @seen_eq n db t r poke.runs (by simpa using linked)
      simp only [Pass.write, Pass.update, Function.update_self, kept, start, own.2, read]
      rw [ne_eq, Int32.left_eq_add]
      decide
    · rw [written.pact j, kept, start]

theorem shows_entered (poke : Pokes db r t) (other : r ≠ t) (unasked : ¬SdisEdge db r t)
    (undriven : (db r).kind.isOutput = true → (db r).closedLoop = true → ¬(db r).dol.Processes t) :
    Shows (fun m => ∃ stack, m = .entered t stack) False (process db (plainHost n) r) (start db r t) := by
  obtain ⟨pp, ms, link⟩ := poke.link
  have begun := @traceLine_cells n Unit db r ": process entered" ((start db r t).enter r)
  obtain ⟨u, checked, enabled, flags, depth⟩ := @readSdis_passes n db t r poke other unasked (maxDepth - 1) _ begun
  have active (j : Fin n) (apart : j ≠ t) : ((u.raisePact r).cells j).pact = true := by
    rw [(raisePact_flags u r j).1]
    split_ifs with own
    · rfl
    · rw [flags j, cells_pact]
      exact ⟨Ne.symm own, apart⟩
  have drove : ∃ w, driveOutput db r (visit db (plainHost n) (maxDepth - 1)) (u.raisePact r) = (.ok (), w) ∧
      Quiet (u.raisePact r) w := by
    unfold driveOutput
    split_ifs with closed
    · simp only [Bool.and_eq_true] at closed
      obtain ⟨severity, w, fetched, _, quiet⟩ := @fetchLinkValue_active n Unit db (plainHost n) (maxDepth - 1) (db r).dol
        (u.raisePact r) (db r).kind fun j edge => active j fun same => undriven poke.output closed.1 (same ▸ edge)
      exact ⟨_, bind_ok fetched, quiet.trans ((quiet_body db r).receive w _)⟩
    · exact ⟨_, rfl, .refl _⟩
  obtain ⟨w, drove, quiet⟩ := drove
  have cleared := (quiet_plainly db).clearUdf w r
  have idle : ((w.clearUdf r).cells t).pact = false := by
    rw [cleared.pact t, quiet.pact t, (raisePact_flags u r t).1, if_neg other, flags t, Bool.eq_false_iff, ne_eq,
      cells_pact]
    simp
  have room : (w.clearUdf r).depth < maxDepth := by
    rw [cleared.depth, quiet.depth, show (u.raisePact r).depth = u.depth from rfl, depth,
      ((quiet_plainly db).traceLine r _ _).depth]
    exact show 1 < maxDepth by decide
  have entered : Shows (fun m => ∃ stack, m = .entered t stack) False (visit db (plainHost n) (maxDepth - 1) t)
      (w.clearUdf r) := by
    refine visit_shows idle room (shows_of_grows (t := (w.clearUdf r).enter t)
      (List.mem_append_right _ (List.mem_singleton_self _)) ⟨_, rfl⟩ ?_)
    exact (processInner_moves (plainHost n) (Grows.uniform _) (fun j _ => .of_moved (visit_grows _ j)) _).moved
  refine visit_shows (by simp [start, cells]) (show 0 < maxDepth by decide) ?_
  refine processInner_shows_body rfl checked enabled (finishBody_shows (visit_grows _) ?_)
  exact transfer_shows_write (visit_grows _) poke.output drove link entered

end Poke

/-- A record that only outputs to `PROC` can process is spared by every pass from another
record, if no such output can run. -/
theorem spares_iff_not_pokes (unasked : ∀ r, ¬SdisEdge db r t)
    (driven : ∀ r, BodyEdge db r t → (db r).kind.isOutput = true ∧ ∃ pp ms, (db r).out = .db t .proc pp ms)
    (undriven : ∀ r, (db r).kind.isOutput = true → (db r).closedLoop = true → ¬(db r).dol.Processes t) :
    (∀ (ω : Type) (host : Host n ω) s r, r ≠ t → Spares t s (process db host r s).2) ↔ ∀ r, r ≠ t → ¬Pokes db r t := by
  constructor
  · intro spares r other poke
    obtain ⟨marks, log, spared⟩ := spares Unit (plainHost n) (Poke.start db r t) r other
    have shows := Poke.shows_entered poke other (unasked r) (undriven r)
    rcases shows with ⟨impossible, _⟩ | ⟨mark, listed, stack, rfl⟩
    · exact impossible
    · rw [log] at listed
      exact spared stack listed
  · intro quiet ω host s r other
    refine visit_spares (fun r _ => unasked r) (fun r other edge => ?_) _ r other s
    by_contra runs
    obtain ⟨output, link⟩ := driven r edge
    exact quiet r other ⟨output, link, runs⟩

end

/-- A record that is reported as unreachable is entered by no pass from another record of its
lock set, unless an output to its `PROC` field can run. -/
theorem unreachable_spared_iff (db : RecordDb) {set : Nat} {members : List (Config RecordId)}
    (stored : db.lockSets[set]? = some members) (t : Fin members.length)
    (listed : (members.get t).name ∈ db.dependencyGraph.unreachable) :
    (∀ (ω : Type) (host : Host members.length ω) s r, r ≠ t → Spares t s (process (db.wired stored) host r s).2) ↔
      ∀ r, r ≠ t → ¬Pokes (db.wired stored) r t := by
  have unprocessed {i : Fin members.length} {kind : EdgeKind} {field : Field} {pp ms : Bool}
      (link : (kind, Link.db t field pp ms) ∈ linkFields.zip (linksOf (db.wired stored i))) :=
    RecordDb.not_processed_of_unreachable stored listed link
  refine spares_iff_not_pokes (fun r => ?_) (fun r edge => ?_) fun r output closed => ?_
  · rintro ⟨field, ms, link⟩
    exact absurd (@unprocessed r .sdis field true ms (by simp [linkFields, linksOf, link])).2 (by decide)
  · rcases edge with ⟨_, field, ms, link⟩ | ⟨_, _, field, ms, link⟩ | ⟨output, field, pp, ms, link, drives⟩ |
      ⟨field, pp, ms, link⟩
    · exact absurd (@unprocessed r .inp field true ms (by simp [linkFields, linksOf, link])).2 (by decide)
    · exact absurd (@unprocessed r .dol field true ms (by simp [linkFields, linksOf, link])).2 (by decide)
    · have passive := (@unprocessed r .out field pp ms (by simp [linkFields, linksOf, link])).2
      rcases drives with rfl | active
      · exact ⟨output, pp, ms, link⟩
      · cases passive.symm.trans active
    · exact absurd rfl (@unprocessed r .flnk field pp ms (by simp [linkFields, linksOf, link])).1
  · rintro ⟨field, ms, link⟩
    exact absurd (@unprocessed r .dol field true ms (by simp [linkFields, linksOf, link])).2 (by decide)

namespace Poked

/-- The second record is passive, and the first writes to it. -/
def records (field : Field) : Fin 2 → Config String
  | 0 => { name := "R", kind := .ao, scanRaw := "1 second", out := .db "T" field false false }
  | 1 => { name := "T", kind := .ai }

def db (field : Field) : RecordDb := RecordDb.build (records field)

/-- The one lock set. -/
def members (field : Field) : List (Config RecordId) := ((db field).lockSets[0]?).getD []

theorem stored (field : Field) : (db field).lockSets[0]? = some (members field) := by
  have nonempty : (db field).lockSets[0]?.isSome := by cases field <;> decide +kernel
  obtain ⟨group, found⟩ := Option.isSome_iff_exists.mp nonempty
  rw [members, found, Option.getD_some]

theorem length (field : Field) : (members field).length = 2 := by cases field <;> decide +kernel

def first (field : Field) : Fin (members field).length := ⟨0, by rw [length]; decide⟩

def second (field : Field) : Fin (members field).length := ⟨1, by rw [length]; decide⟩

theorem listed (field : Field) :
    ((members field).get (second field)).name ∈ (db field).dependencyGraph.unreachable := by
  have name : ((members field).get (second field)).name = (records field 1).name := by cases field <;> decide +kernel
  rw [name, RecordDb.mem_unreachable]
  refine ⟨RecordDb.mem_names_build 1, ?_⟩
  cases field <;> decide +kernel

end Poked

theorem unreachable_spared_iff_plain :
    ((Poked.members .val).get (Poked.second .val)).name ∈ (Poked.db .val).dependencyGraph.unreachable ∧
      ∀ (ω : Type) (host : Host (Poked.members .val).length ω) s r, r ≠ Poked.second .val →
        Spares (Poked.second .val) s (process ((Poked.db .val).wired (Poked.stored .val)) host r s).2 := by
  refine ⟨Poked.listed .val, (unreachable_spared_iff _ (Poked.stored .val) _ (Poked.listed .val)).mpr ?_⟩
  have unpoked : ∀ r pp ms, ((Poked.db .val).wired (Poked.stored .val) r).out ≠ .db (Poked.second .val) .proc pp ms := by
    decide +kernel
  rintro r _ ⟨_, ⟨pp, ms, link⟩, _⟩
  exact unpoked r pp ms link

def Mark.enters {n : Nat} (t : Fin n) : Mark n → Bool
  | entered id _ => id = t
  | pending _ | completed _ | gaveUp _ | ladder _ _ | committed _ _ _ | disabled _ _ => false

/-- An output to the `PROC` field of a record that is reported as unreachable processes it. -/
theorem proc_output_enters_unreachable :
    ((Poked.members .proc).get (Poked.second .proc)).name ∈ (Poked.db .proc).dependencyGraph.unreachable ∧
      (process ((Poked.db .proc).wired (Poked.stored .proc)) (plainHost _) (Poked.first .proc)
        { cells := fun _ => {}, world := () }).2.log.any (Mark.enters (Poked.second .proc)) = true :=
  ⟨Poked.listed .proc, by decide +kernel⟩

end Spvirit.Ioc.Engine
