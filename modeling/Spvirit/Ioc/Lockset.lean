import Spvirit.Foundation.UnionFind
import Spvirit.Ioc.Process

/-! Lock sets: the records that links join, and the database that is built of them. -/

namespace Spvirit.Ioc.Engine

/-- The links of a record, in the order in which they are resolved. -/
def linksOf {τ : Type} (cfg : Config τ) : List (Link τ) := [cfg.inp, cfg.out, cfg.dol, cfg.flnk, cfg.sdis]

def Config.mapLinks {σ τ : Type} (f : Link σ → Link τ) (cfg : Config σ) : Config τ :=
  { cfg with
    sdis := f cfg.sdis
    flnk := f cfg.flnk
    inp := f cfg.inp
    out := f cfg.out
    dol := f cfg.dol }

@[simp] theorem linksOf_mapLinks {σ τ : Type} (f : Link σ → Link τ) (cfg : Config σ) :
    linksOf (cfg.mapLinks f) = (linksOf cfg).map f := rfl

section

variable {n : Nat} (records : Fin n → Config String)

/-- The last record of a name. -/
def indexOf (name : String) : Option (Fin n) :=
  ((List.finRange n).filter fun i => (records i).name = name).getLast?

def targetOf : Link String → Option (Fin n)
  | .db name _ _ _ => indexOf records name
  | .constant _ | .unresolved _ => none

/-- The pairs that the links join, in the order of the records and of their links. -/
def joins : List (Fin n × Fin n) :=
  (List.finRange n).flatMap fun i => (linksOf (records i)).filterMap fun link =>
    (targetOf records link).map fun j => (i, j)

def Linked (i j : Fin n) : Prop := ∃ link ∈ linksOf (records i), targetOf records link = some j

/-- The root that `find` returns; halving keeps every root. -/
def rootOf (i : Fin n) : Fin n := (UnionFind.find (Fintype.card (Fin n)) (UnionFind.unions (joins records)) i).2

/-- The records of one root, ascending, for each root in the order of its least record. -/
def partition : List (List (Fin n)) :=
  ((List.finRange n).filter fun i => ∀ j < i, rootOf records j ≠ rootOf records i).map fun i =>
    (List.finRange n).filter fun j => rootOf records j = rootOf records i

variable {i j : Fin n} {group : List (Fin n)} {name : String}

theorem mem_joins : (i, j) ∈ joins records ↔ Linked records i j := by
  simp only [joins, Linked, List.mem_flatMap, List.mem_finRange, true_and, List.mem_filterMap, Option.map_eq_some_iff,
    Prod.mk.injEq]
  constructor
  · rintro ⟨_, link, member, _, target, rfl, rfl⟩
    exact ⟨link, member, target⟩
  · rintro ⟨link, member, target⟩
    exact ⟨i, link, member, j, target, rfl, rfl⟩

theorem rootOf_eq_iff : rootOf records i = rootOf records j ↔ Relation.EqvGen (Linked records) i j := by
  have joined : (fun a b => (a, b) ∈ joins records) = Linked records := by
    funext a b
    exact propext (mem_joins records)
  rw [← joined, ← UnionFind.unions_same_iff]
  have forest := UnionFind.unions_forest (joins records)
  obtain ⟨k, r, leads⟩ := forest i
  obtain ⟨k', r', leads'⟩ := forest j
  rw [rootOf, rootOf, (UnionFind.find_spec leads leads.lt_card.le).1, (UnionFind.find_spec leads' leads'.lt_card.le).1]
  constructor
  · rintro rfl
    exact ⟨k, k', r, leads, leads'⟩
  · rintro ⟨l, l', r'', first, second⟩
    exact (leads.unique first).2.trans (leads'.unique second).2.symm

/-- The least record of a class stands for it. -/
theorem exists_least (i : Fin n) :
    ∃ l, rootOf records l = rootOf records i ∧ ∀ j < l, rootOf records j ≠ rootOf records l := by
  induction i using WellFoundedLT.induction with
  | _ i ih =>
    by_cases least : ∀ j < i, rootOf records j ≠ rootOf records i
    · exact ⟨i, rfl, least⟩
    · push Not at least
      obtain ⟨j, below, same⟩ := least
      obtain ⟨l, root, first⟩ := ih j below
      exact ⟨l, root.trans same, first⟩

theorem mem_partition : group ∈ partition records ↔
    ∃ l, (∀ j < l, rootOf records j ≠ rootOf records l) ∧
      group = (List.finRange n).filter fun j => rootOf records j = rootOf records l := by
  simp only [partition, List.mem_map, List.mem_filter, List.mem_finRange, true_and, decide_eq_true_eq]
  constructor
  · rintro ⟨l, least, rfl⟩
    exact ⟨l, least, rfl⟩
  · rintro ⟨l, least, rfl⟩
    exact ⟨l, least, rfl⟩

theorem exists_group (i : Fin n) : ∃ group ∈ partition records, i ∈ group := by
  obtain ⟨l, root, least⟩ := exists_least records i
  exact ⟨_, (mem_partition records).mpr ⟨l, least, rfl⟩, by simp [root]⟩

theorem mem_group_iff (member : group ∈ partition records) (inside : i ∈ group) :
    j ∈ group ↔ Relation.EqvGen (Linked records) i j := by
  obtain ⟨l, _, rfl⟩ := (mem_partition records).mp member
  simp only [List.mem_filter, List.mem_finRange, true_and, decide_eq_true_eq] at inside ⊢
  rw [← rootOf_eq_iff, inside, eq_comm]

theorem partition_pairwise : (partition records).Pairwise List.Disjoint := by
  unfold partition
  rw [List.pairwise_map]
  have sorted : ((List.finRange n).filter fun i => ∀ j < i, rootOf records j ≠ rootOf records i).Pairwise (· < ·) :=
    (List.pairwise_lt_finRange n).filter _
  refine sorted.imp_of_mem fun {a b} _ memberB less i inA inB => ?_
  simp only [List.mem_filter, List.mem_finRange, true_and, decide_eq_true_eq] at memberB inA inB
  exact memberB a less (inA.symm.trans inB)

/-- The place of a record: its group, and its place in the group. -/
def recordIdOf (i : Fin n) : RecordId :=
  let set := (partition records).findIdx (i ∈ ·)
  ⟨set, ((partition records).getD set []).idxOf i⟩

def byName (name : String) : Option RecordId := (indexOf records name).map (recordIdOf records)

/-- A link to a record that does not exist is kept by its name. -/
def fixLink : Link String → Link RecordId
  | .constant v => .constant v
  | .unresolved name => .unresolved name
  | .db name field processPassive maximizeSeverity =>
    match byName records name with
    | some id => .db id field processPassive maximizeSeverity
    | none => .unresolved name

def missingName : Link String → Option String
  | .db name _ _ _ => if (byName records name).isNone then some name else none
  | .constant _ | .unresolved _ => none

/-- Drops the repetitions of a sorted list. -/
def dedup : List String → List String
  | [] => []
  | [name] => [name]
  | name :: next :: rest => if name = next then dedup (next :: rest) else name :: dedup (next :: rest)

def lockSets : List (List (Config RecordId)) :=
  (partition records).map fun group => group.map fun i => (records i).mapLinks (fixLink records)

def unresolvedNames : List String :=
  dedup (((partition records).flatten.flatMap fun i => (linksOf (records i)).filterMap (missingName records)).mergeSort
    fun a b => a ≤ b)

theorem indexOf_name (found : indexOf records name = some j) : (records j).name = name := by
  simpa using (List.mem_filter.mp (List.mem_of_getLast? found)).2

theorem indexOf_eq_none : indexOf records name = none ↔ ∀ j, (records j).name ≠ name := by
  simp [indexOf]

theorem recordIdOf_eq {set : Nat} (stored : (partition records)[set]? = some group)
    (inside : i ∈ group) : recordIdOf records i = ⟨set, group.idxOf i⟩ := by
  obtain ⟨bound, rfl⟩ := List.getElem?_eq_some_iff.mp stored
  have found : (partition records).findIdx (i ∈ ·) = set := by
    have exists' : (partition records).findIdx (i ∈ ·) < (partition records).length :=
      List.findIdx_lt_length_of_exists ⟨_, List.getElem_mem bound, by simpa using inside⟩
    have member : i ∈ (partition records)[(partition records).findIdx (i ∈ ·)] := by
      simpa using List.findIdx_getElem (w := exists')
    by_contra other
    have apart := List.pairwise_iff_getElem.mp (partition_pairwise records)
    rcases Nat.lt_or_gt_of_ne other with less | more
    · exact apart _ _ exists' bound less member inside
    · exact apart _ _ bound exists' more inside member
  simp only [recordIdOf, found, List.getD_eq_getElem?_getD, List.getElem?_eq_getElem bound, Option.getD_some]

theorem byName_confined {set : Nat} (stored : (partition records)[set]? = some group)
    (inside : i ∈ group) {field : Field} {pp ms : Bool} (link : .db name field pp ms ∈ linksOf (records i))
    {id : RecordId} (found : byName records name = some id) :
    id.set = set ∧ ∃ j, group[id.slot]? = some j ∧ (records j).name = name := by
  obtain ⟨j, target, rfl⟩ := Option.map_eq_some_iff.mp found
  have member : j ∈ group := (mem_group_iff records (List.mem_of_getElem? stored) inside).mpr
    (.rel _ _ ⟨_, link, target⟩)
  rw [recordIdOf_eq records stored member]
  refine ⟨rfl, j, ?_, indexOf_name records target⟩
  rw [List.getElem?_eq_getElem (List.idxOf_lt_length_iff.mpr member), List.getElem_idxOf]

theorem mem_dedup (names : List String) : name ∈ dedup names ↔ name ∈ names := by
  fun_induction dedup names with
  | case1 => rfl
  | case2 => rfl
  | case3 rest next ih =>
    rw [ih]
    simp
  | case4 first next rest _ ih => simp [ih]

theorem dedup_sorted {names : List String} (sorted : names.Pairwise (· ≤ ·)) : (dedup names).Pairwise (· < ·) := by
  fun_induction dedup names with
  | case1 => exact .nil
  | case2 name => exact List.pairwise_singleton _ _
  | case3 rest next ih => exact ih sorted.of_cons
  | case4 first next rest different ih =>
    obtain ⟨below, sorted⟩ := List.pairwise_cons.mp sorted
    refine List.pairwise_cons.mpr ⟨fun name member => ?_, ih sorted⟩
    have least : first < next := Std.lt_of_le_of_ne (below next List.mem_cons_self) different
    rcases List.mem_cons.mp ((mem_dedup _).mp member) with rfl | later
    · exact least
    · exact Std.lt_of_lt_of_le least ((List.pairwise_cons.mp sorted).1 name later)

theorem mem_unresolvedNames : name ∈ unresolvedNames records ↔
    (∃ i field pp ms, .db name field pp ms ∈ linksOf (records i)) ∧ ∀ j, (records j).name ≠ name := by
  have missing (link : Link String) : missingName records link = some name ↔
      (∃ field pp ms, link = .db name field pp ms) ∧ ∀ j, (records j).name ≠ name := by
    cases link with
    | constant _ | unresolved _ => simp [missingName]
    | db other field pp ms =>
      simp only [missingName, byName, Option.isNone_map, Option.isNone_iff_eq_none, indexOf_eq_none]
      split_ifs with absent
      · simp only [Option.some.injEq, Link.db.injEq]
        constructor
        · rintro rfl
          exact ⟨⟨field, pp, ms, rfl, rfl, rfl, rfl⟩, absent⟩
        · rintro ⟨⟨_, _, _, rfl, _⟩, _⟩
          rfl
      · simp only [false_iff, not_and]
        rintro ⟨_, _, _, rfl, _⟩
        exact absent
  simp only [unresolvedNames, mem_dedup, List.mem_mergeSort, List.mem_flatMap, List.mem_flatten, List.mem_filterMap,
    missing]
  constructor
  · rintro ⟨i, _, _, member, ⟨field, pp, ms, rfl⟩, absent⟩
    exact ⟨⟨i, field, pp, ms, member⟩, absent⟩
  · rintro ⟨⟨i, field, pp, ms, member⟩, absent⟩
    obtain ⟨group, stored, inside⟩ := exists_group records i
    exact ⟨i, ⟨group, stored, inside⟩, _, member, ⟨field, pp, ms, rfl⟩, absent⟩

end

/-- A database. A link stays in the lock set of its record, so that the place in the set is
enough to follow it under the lock of the set. -/
structure RecordDb where
  lockSets : List (List (Config RecordId))
  byName : String → Option RecordId
  names : List String
  order : List RecordId
  unresolved : List String
  confined : ∀ {set : Nat} {members : List (Config RecordId)}, lockSets[set]? = some members → ∀ cfg ∈ members,
    ∀ {id : RecordId} {field : Field} {pp ms : Bool}, Link.db id field pp ms ∈ linksOf cfg →
      id.set = set ∧ id.slot < members.length

section

variable {n : Nat} (records : Fin n → Config String)

theorem lockSets_get {set : Nat} {members : List (Config RecordId)} (stored : (lockSets records)[set]? = some members) :
    ∃ group, (partition records)[set]? = some group ∧
      members = group.map fun i => (records i).mapLinks (fixLink records) := by
  obtain ⟨group, found, rfl⟩ := Option.map_eq_some_iff.mp ((List.getElem?_map ..).symm.trans stored)
  exact ⟨group, found, rfl⟩

theorem lockSets_confined {set : Nat} {members : List (Config RecordId)}
    (stored : (lockSets records)[set]? = some members) {cfg : Config RecordId} (member : cfg ∈ members) {id : RecordId}
    {field : Field} {pp ms : Bool} (link : .db id field pp ms ∈ linksOf cfg) :
    id.set = set ∧ id.slot < members.length := by
  obtain ⟨group, found, rfl⟩ := lockSets_get records stored
  obtain ⟨i, inside, rfl⟩ := List.mem_map.mp member
  rw [linksOf_mapLinks] at link
  obtain ⟨source, listed, fixed⟩ := List.mem_map.mp link
  cases source with
  | constant _ | unresolved _ => cases fixed
  | db name field' pp' ms' =>
    simp only [fixLink] at fixed
    cases target : byName records name with
    | none =>
      rw [target] at fixed
      cases fixed
    | some id' =>
      rw [target] at fixed
      cases fixed
      obtain ⟨own, j, slot, _⟩ := byName_confined records found inside listed target
      rw [List.length_map]
      exact ⟨own, (List.getElem?_eq_some_iff.mp slot).1⟩

def RecordDb.build : RecordDb where
  lockSets := Engine.lockSets records
  byName := Engine.byName records
  names := dedup (((List.finRange n).map fun i => (records i).name).mergeSort fun a b => a ≤ b)
  order := (List.finRange n).map (recordIdOf records)
  unresolved := unresolvedNames records
  confined stored _ member _ _ _ _ link := lockSets_confined records stored member link

end

/-- A link by the place of its target in the lock set, which is all that is used of an id under the
lock of the set. -/
def Link.toSlot {m : Nat} : (link : Link RecordId) →
    (∀ {id field pp ms}, link = .db id field pp ms → id.slot < m) → Link (Fin m)
  | .constant v, _ => .constant v
  | .unresolved name, _ => .unresolved name
  | .db id field pp ms, inside => .db ⟨id.slot, inside rfl⟩ field pp ms

def Link.inSet {m : Nat} (set : Nat) : Link (Fin m) → Link RecordId
  | .constant v => .constant v
  | .unresolved name => .unresolved name
  | .db j field pp ms => .db ⟨set, j⟩ field pp ms

theorem Link.inSet_toSlot {m set : Nat} (link : Link RecordId)
    (inside : ∀ {id field pp ms}, link = .db id field pp ms → id.slot < m)
    (own : ∀ {id field pp ms}, link = .db id field pp ms → id.set = set) : (link.toSlot inside).inSet set = link := by
  cases link with
  | constant _ | unresolved _ => rfl
  | db id field pp ms => rw [toSlot, inSet, ← own rfl]

namespace RecordDb

variable (db : RecordDb)

def wired {set : Nat} {members : List (Config RecordId)} (stored : db.lockSets[set]? = some members)
    (i : Fin members.length) : Config (Fin members.length) :=
  let cfg := members.get i
  have inside {link : Link RecordId} (listed : link ∈ linksOf cfg) {id field pp ms} (eq : link = .db id field pp ms) :
      id.slot < members.length := (db.confined stored cfg (List.get_mem ..) (eq ▸ listed)).2
  { cfg with
    sdis := cfg.sdis.toSlot (inside (by simp [linksOf]))
    flnk := cfg.flnk.toSlot (inside (by simp [linksOf]))
    inp := cfg.inp.toSlot (inside (by simp [linksOf]))
    out := cfg.out.toSlot (inside (by simp [linksOf]))
    dol := cfg.dol.toSlot (inside (by simp [linksOf])) }

theorem wired_links {set : Nat} {members : List (Config RecordId)} (stored : db.lockSets[set]? = some members)
    (i : Fin members.length) : (linksOf (db.wired stored i)).map (Link.inSet set) = linksOf (members.get i) := by
  have place {link : Link RecordId} (listed : link ∈ linksOf (members.get i)) {id field pp ms}
      (eq : link = .db id field pp ms) : id.set = set ∧ id.slot < members.length :=
    db.confined stored _ (List.get_mem ..) (eq ▸ listed)
  have kept {link : Link RecordId} (listed : link ∈ linksOf (members.get i)) :
      (link.toSlot fun eq => (place listed eq).2).inSet set = link :=
    Link.inSet_toSlot link _ fun eq => (place listed eq).1
  simp only [linksOf, wired, List.map_cons, List.map_nil, List.cons.injEq, and_true]
  exact ⟨kept (by simp [linksOf]), kept (by simp [linksOf]), kept (by simp [linksOf]), kept (by simp [linksOf]),
    kept (by simp [linksOf])⟩

end RecordDb

section

variable {n : Nat} (records : Fin n → Config String)

/-- What became of a link in a lock set: a link to a record of the set that bears the name, or
an unresolved one if no record does. -/
def Resolves (set : Nat) (members : List (Config RecordId)) : Link String → Link RecordId → Prop
  | .constant v, link => link = .constant v
  | .unresolved name, link => link = .unresolved name
  | .db name field pp ms, link =>
    (∃ slot target, link = .db ⟨set, slot⟩ field pp ms ∧ members[slot]? = some target ∧ target.name = name) ∨
      link = .unresolved name ∧ ∀ j, (records j).name ≠ name

theorem fixLink_resolves {set : Nat} {group : List (Fin n)} (stored : (partition records)[set]? = some group) {i : Fin n}
    (inside : i ∈ group) {link : Link String} (listed : link ∈ linksOf (records i)) :
    Resolves records set (group.map fun i => (records i).mapLinks (fixLink records)) link (fixLink records link) := by
  cases link with
  | constant _ | unresolved _ => rfl
  | db name field pp ms =>
    simp only [fixLink, Resolves]
    cases target : byName records name with
    | none =>
      refine Or.inr ⟨rfl, ?_⟩
      rwa [byName, Option.map_eq_none_iff, indexOf_eq_none] at target
    | some id =>
      obtain ⟨rfl, j, slot, named⟩ := byName_confined records stored inside listed target
      refine Or.inl ⟨id.slot, (records j).mapLinks (fixLink records), rfl, ?_, named⟩
      rw [List.getElem?_map, slot]
      rfl

def PlacedAt (i : Fin n) (id : RecordId) : Prop :=
  ∃ members cfg, (RecordDb.build records).lockSets[id.set]? = some members ∧ members[id.slot]? = some cfg ∧
    cfg.name = (records i).name ∧ List.Forall₂ (Resolves records id.set members) (linksOf (records i)) (linksOf cfg)

theorem placedAt_of_group {set slot : Nat} {group : List (Fin n)} (stored : (partition records)[set]? = some group)
    {i : Fin n} (inside : group[slot]? = some i) : PlacedAt records i ⟨set, slot⟩ := by
  have listed : (lockSets records)[set]? = some (group.map fun i => (records i).mapLinks (fixLink records)) := by
    rw [lockSets, List.getElem?_map, stored]
    rfl
  refine ⟨_, (records i).mapLinks (fixLink records), listed, ?_, rfl, ?_⟩
  · rw [List.getElem?_map, inside]
    rfl
  · rw [linksOf_mapLinks, List.forall₂_map_right_iff, List.forall₂_same]
    exact fun link member => fixLink_resolves records stored (List.mem_of_getElem? inside) member

theorem recordIdOf_placed (i : Fin n) : PlacedAt records i (recordIdOf records i) := by
  obtain ⟨group, member, inside⟩ := exists_group records i
  obtain ⟨set, stored⟩ := List.mem_iff_getElem?.mp member
  rw [recordIdOf_eq records stored inside]
  refine placedAt_of_group records stored ?_
  rw [List.getElem?_eq_getElem (List.idxOf_lt_length_iff.mpr inside), List.getElem_idxOf]

theorem exists_of_place {set slot : Nat} {members : List (Config RecordId)}
    (stored : (lockSets records)[set]? = some members) (inside : slot < members.length) :
    ∃ i, recordIdOf records i = ⟨set, slot⟩ := by
  obtain ⟨group, found, rfl⟩ := lockSets_get records stored
  rw [List.length_map] at inside
  obtain ⟨l, _, rfl⟩ := (mem_partition records).mp (List.mem_of_getElem? found)
  have nodup := (List.nodup_finRange n).filter fun j => rootOf records j = rootOf records l
  refine ⟨_, (recordIdOf_eq records found (List.getElem_mem inside)).trans ?_⟩
  rw [nodup.idxOf_getElem]

/-- The lock sets are the connected components of the records, none of them empty, and every record has its one place
in them. Every link of a record is to the named record in the same set, or to no record, and the
latter are reported; under the lock of a set the place in the set says which record is meant. -/
theorem build_confines_processing :
    (∀ i, ∃ group ∈ partition records, i ∈ group ∧ ∀ j, j ∈ group ↔ Relation.EqvGen (Linked records) i j) ∧
    (∀ group ∈ partition records, group ≠ []) ∧ (partition records).Pairwise List.Disjoint ∧
    (∀ i, PlacedAt records i (recordIdOf records i)) ∧
    (∀ set slot members, (RecordDb.build records).lockSets[set]? = some members → slot < members.length →
      ∃ i, recordIdOf records i = ⟨set, slot⟩) ∧
    (∀ name, name ∈ (RecordDb.build records).unresolved ↔
      (∃ i field pp ms, .db name field pp ms ∈ linksOf (records i)) ∧ ∀ j, (records j).name ≠ name) ∧
    (RecordDb.build records).unresolved.Pairwise (· < ·) ∧
    ∀ set members (stored : (RecordDb.build records).lockSets[set]? = some members) (i : Fin members.length),
      (linksOf ((RecordDb.build records).wired stored i)).map (Link.inSet set) = linksOf (members.get i) := by
  refine ⟨fun i => ?_, fun group member => ?_, partition_pairwise records, recordIdOf_placed records,
    fun set slot members stored inside => exists_of_place records stored inside,
    fun name => mem_unresolvedNames records, ?_, fun set members stored i => RecordDb.wired_links _ stored i⟩
  · obtain ⟨group, member, inside⟩ := exists_group records i
    exact ⟨group, member, inside, fun j => mem_group_iff records member inside⟩
  · obtain ⟨i, _, rfl⟩ := List.mem_map.mp member
    exact List.ne_nil_of_mem (List.mem_filter.mpr ⟨List.mem_finRange i, by simp⟩)
  · refine dedup_sorted ((List.pairwise_mergeSort ?_ ?_ _).imp of_decide_eq_true)
    · exact fun a b c first second => decide_eq_true (String.le_trans (of_decide_eq_true first) (of_decide_eq_true second))
    · exact fun a b => by simpa using String.le_total a b

end

end Spvirit.Ioc.Engine
