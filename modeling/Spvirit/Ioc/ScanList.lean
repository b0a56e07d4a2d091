import Spvirit.Foundation.BinarySearch
import Spvirit.Ioc.Process

/-! A scan list: the records of one period, by PHAS and then by when they were added. -/

namespace Spvirit.Ioc

open BinarySearch Engine

/-- PHAS and then the number of the insertion. -/
abbrev ScanKey := Int ×ₗ Nat

structure ScanList where
  members : List (ScanKey × RecordId)
  index : RecordId → Option ScanKey
  nextSeq : Nat

inductive ScanCall where
  | insert (id : RecordId) (phas : Int)
  | remove (id : RecordId)

namespace ScanList

def new : ScanList := ⟨[], fun _ => none, 0⟩

variable (list : ScanList)

def locate (key : ScanKey) : Option Nat :=
  (binarySearchBy (fun probe => compare probe.1 key) list.members).toOption

def slotFor (key : ScanKey) : Nat := partitionPoint (fun probe => decide (probe.1 < key)) list.members

/-- The members once the one at a key, if the search finds it, is taken out. -/
def without (key : ScanKey) : List (ScanKey × RecordId) :=
  match list.locate key with
  | some pos => list.members.eraseIdx pos
  | none => list.members

/-- A record put in at its slot, and its key in the index. -/
def place (key : ScanKey) (id : RecordId) : ScanList :=
  { list with
    members := list.members.take (list.slotFor key) ++ (key, id) :: list.members.drop (list.slotFor key)
    index := Function.update list.index id (some key) }

/-- The counter of insertions is a word of 64 bits. -/
def insert (id : RecordId) (phas : Int) : ScanList :=
  match list.index id with
  | some old =>
    if (ofLex old).1 = phas then list
    else { list with members := list.without old }.place (toLex (phas, (ofLex old).2)) id
  | none => { list with nextSeq := (list.nextSeq + 1) % 2 ^ 64 }.place (toLex (phas, list.nextSeq)) id

def remove (id : RecordId) : ScanList × Bool :=
  match list.index id with
  | none => (list, false)
  | some key => ({ list with members := list.without key, index := Function.update list.index id none }, true)

def snapshot : List RecordId := list.members.map (·.2)

def perform : ScanCall → ScanList
  | .insert id phas => list.insert id phas
  | .remove id => (list.remove id).1

def after : List ScanCall → ScanList
  | [] => new
  | call :: calls => (after calls).perform call

end ScanList

/-- What the calls, the latest first, leave of a record: nothing if it is not a member, else
its PHAS and the time, in calls, of the insertion that made it one. -/
def standing (id : RecordId) : List ScanCall → Option ScanKey
  | [] => none
  | .insert other phas :: calls =>
    if other = id then
      match standing id calls with
      | some key => some (toLex (phas, (ofLex key).2))
      | none => some (toLex (phas, calls.length))
    else standing id calls
  | .remove other :: calls => if other = id then none else standing id calls

def ScanCall.isInsert : ScanCall → Bool
  | .insert _ _ => true
  | .remove _ => false

namespace ScanList

/-- The members are sorted by their keys and are the entries of the index. -/
structure Sound (list : ScanList) : Prop where
  sorted : list.members.Pairwise fun a b => a.1 < b.1
  same : ∀ key id, (key, id) ∈ list.members ↔ list.index id = some key

namespace Sound

variable {list : ScanList} (sound : Sound list) {id : RecordId} {key : ScanKey}
include sound

theorem without_splits (present : list.index id = some key) :
    ∃ before after, list.members = before ++ (key, id) :: after ∧ list.without key = before ++ after := by
  have ordered : Ordered (fun probe => compare probe.1 key) list.members :=
    sound.sorted.imp fun {a b} less => by
      rcases lt_or_ge a.1 key with early | late
      · exact .inl (compare_lt_iff_lt.mpr early)
      · exact .inr (compare_gt_iff_gt.mpr (late.trans_lt less))
  obtain ⟨before, after, parts, found⟩ :=
    binarySearchBy_finds ordered ((sound.same key id).mpr present) (compare_eq_iff_eq.mpr rfl)
  refine ⟨before, after, parts, ?_⟩
  rw [without, locate, found, parts]
  simp [Except.toOption, List.eraseIdx_append_of_length_le]

theorem taken (present : list.index id = some key) :
    Sound { list with members := list.without key, index := Function.update list.index id none } := by
  obtain ⟨before, after, parts, left⟩ := sound.without_splits present
  have sorted := sound.sorted
  rw [parts] at sorted
  have fresh : (key, id) ∉ before ++ after := by
    have nodup : (before ++ (key, id) :: after).Nodup := sorted.imp fun less same => (same ▸ less).ne rfl
    exact (List.nodup_cons.mp (List.nodup_middle.mp nodup)).1
  refine ⟨left ▸ sorted.sublist ((List.sublist_cons_self _ _).append_left before), fun k other => ?_⟩
  simp only [left]
  have member := sound.same k other
  by_cases same : other = id
  · subst same
    rw [Function.update_self]
    simp only [reduceCtorEq, iff_false]
    intro kept
    have old : list.index other = some k := by
      rw [← member, parts]
      exact (List.sublist_cons_self _ _).append_left before |>.subset kept
    cases present.symm.trans old
    exact fresh kept
  · rw [Function.update_of_ne same, ← member, parts]
    simp [same]

theorem placed (absent : list.index id = none) (free : ∀ other, list.index other ≠ some key) :
    Sound (list.place key id) := by
  have ordered : list.members.Pairwise fun a b => decide (a.1 < key) = true ∨ decide (b.1 < key) = false :=
    sound.sorted.imp fun {a b} less => by
      rcases lt_or_ge a.1 key with early | late
      · exact .inl (decide_eq_true early)
      · exact .inr (decide_eq_false (late.trans_lt less).not_gt)
  obtain ⟨before, after, parts, slot, early, late⟩ := partitionPoint_splits ordered
  have members : (list.place key id).members = before ++ (key, id) :: after := by
    rw [place, slotFor, slot, parts]
    simp
  have greater : ∀ a ∈ after, key < a.1 := by
    intro a member
    have entry : list.index a.2 = some a.1 := (sound.same _ _).mp (parts ▸ List.mem_append_right _ member)
    exact lt_of_le_of_ne (not_lt.mp (of_decide_eq_false (late a member))) fun same => free a.2 (same ▸ entry)
  have sorted := sound.sorted
  rw [parts, List.pairwise_append] at sorted
  refine ⟨?_, fun k other => ?_⟩
  · rw [members, List.pairwise_append, List.pairwise_cons]
    refine ⟨sorted.1, ⟨greater, sorted.2.1⟩, fun a member => List.forall_mem_cons.mpr ⟨?_, sorted.2.2 a member⟩⟩
    exact of_decide_eq_true (early a member)
  · have member := sound.same k other
    rw [parts] at member
    rw [members]
    change _ ↔ Function.update list.index id (some key) other = some k
    by_cases same : other = id
    · subst same
      simp only [absent, reduceCtorEq, iff_false, List.mem_append, not_or] at member
      simp [member, eq_comm]
    · rw [Function.update_of_ne same, ← member]
      simp [same]

end Sound

/-- The list is what the calls leave of every record, once the numbers of the insertions are
read as their times. Each number was given to one record. -/
structure Refines (calls : List ScanCall) (times : Nat → Nat) (owner : Nat → RecordId) (list : ScanList) : Prop
    extends Sound list where
  stands : ∀ id, standing id calls = (list.index id).map fun key => toLex ((ofLex key).1, times (ofLex key).2)
  increasing : StrictMono times
  past : ∀ seq < list.nextSeq, times seq < calls.length
  issued : ∀ id key, list.index id = some key → (ofLex key).2 < list.nextSeq ∧ owner (ofLex key).2 = id
  few : list.nextSeq ≤ calls.countP ScanCall.isInsert

namespace Refines

variable {calls : List ScanCall} {times : Nat → Nat} {owner : Nat → RecordId} {list : ScanList}
  (refines : Refines calls times owner list) (id : RecordId)
include refines

/-- A call that changes the entry of one record, and gives out no number but to it. -/
theorem next {call : ScanCall} {list' : ScanList} {times' : Nat → Nat} {owner' : Nat → RecordId} {id : RecordId}
    {entry : Option ScanKey} (sound : Sound list') (index : list'.index = Function.update list.index id entry)
    (elsewhere : ∀ other ≠ id, standing other (call :: calls) = standing other calls)
    (here : standing id (call :: calls) = entry.map fun key => toLex ((ofLex key).1, times' (ofLex key).2))
    (kept : ∀ seq < list.nextSeq, times' seq = times seq ∧ owner' seq = owner seq) (increasing : StrictMono times')
    (past : ∀ seq < list'.nextSeq, times' seq < calls.length + 1) (grows : list.nextSeq ≤ list'.nextSeq)
    (issued : ∀ key ∈ entry, (ofLex key).2 < list'.nextSeq ∧ owner' (ofLex key).2 = id)
    (few : list'.nextSeq ≤ (call :: calls).countP ScanCall.isInsert) :
    Refines (call :: calls) times' owner' list' := by
  refine ⟨sound, fun other => ?_, increasing, past, fun other key found => ?_, few⟩
  · by_cases same : other = id
    · rw [same, here, index, Function.update_self]
    · rw [elsewhere other same, refines.stands, index, Function.update_of_ne same]
      refine Option.map_congr fun key found => ?_
      rw [(kept _ (refines.issued other key found).1).1]
  · rw [index] at found
    by_cases same : other = id
    · rw [same, Function.update_self] at found
      exact same ▸ issued key found
    · rw [Function.update_of_ne same] at found
      have old := refines.issued other key found
      exact ⟨old.1.trans_le grows, (kept _ old.1).2.trans old.2⟩

theorem remove : Refines (.remove id :: calls) times owner (list.remove id).1 := by
  have fields : (list.remove id).1.index = Function.update list.index id none ∧
      (list.remove id).1.nextSeq = list.nextSeq ∧ Sound (list.remove id).1 := by
    rw [ScanList.remove]
    split
    next absent => exact ⟨(absent ▸ Function.update_eq_self id list.index).symm, rfl, refines.toSound⟩
    next key present => exact ⟨rfl, rfl, refines.taken present⟩
  obtain ⟨index, nextSeq, sound⟩ := fields
  refine refines.next sound index (fun other same => if_neg (Ne.symm same)) (if_pos rfl) (fun _ _ => ⟨rfl, rfl⟩)
    refines.increasing (fun seq below => Nat.lt_succ_of_lt (refines.past seq (nextSeq ▸ below))) nextSeq.ge
    (fun key found => by cases found) ?_
  rw [nextSeq, List.countP_cons_of_neg (by simp [ScanCall.isInsert])]
  exact refines.few

theorem insert_member (phas : Int) {old : ScanKey} (present : list.index id = some old) :
    Refines (.insert id phas :: calls) times owner (list.insert id phas) := by
  have fields : (list.insert id phas).index = Function.update list.index id (some (toLex (phas, (ofLex old).2))) ∧
      (list.insert id phas).nextSeq = list.nextSeq ∧ Sound (list.insert id phas) := by
    rw [ScanList.insert, present]
    simp only
    split_ifs with same
    · refine ⟨?_, rfl, refines.toSound⟩
      rw [← same, eq_comm]
      exact present ▸ Function.update_eq_self id list.index
    · refine ⟨rfl, rfl, ?_⟩
      have free : ∀ other, Function.update list.index id none other ≠ some (toLex (phas, (ofLex old).2)) := by
        intro other taken
        rw [Function.update_apply] at taken
        split_ifs at taken with same
        exact same ((refines.issued other _ taken).2.symm.trans (refines.issued id old present).2)
      have placed := (refines.taken present).placed (Function.update_self _ _ _) free
      rwa [place, Function.update_idem] at placed
  obtain ⟨index, nextSeq, sound⟩ := fields
  have number := refines.issued id old present
  refine refines.next sound index (fun other same => if_neg (Ne.symm same)) ?_ (fun _ _ => ⟨rfl, rfl⟩)
    refines.increasing (fun seq below => Nat.lt_succ_of_lt (refines.past seq (nextSeq ▸ below))) nextSeq.ge
    (fun key found => ?_) ?_
  · rw [standing, if_pos rfl, refines.stands, present]
    rfl
  · cases found
    exact nextSeq ▸ number
  · rw [nextSeq, List.countP_cons_of_pos rfl]
    exact refines.few.trans (Nat.le_succ _)

theorem insert_fresh (phas : Int) (absent : list.index id = none) (room : list.nextSeq + 1 < 2 ^ 64) :
    ∃ times owner, Refines (.insert id phas :: calls) times owner (list.insert id phas) := by
  have fields : (list.insert id phas).index = Function.update list.index id (some (toLex (phas, list.nextSeq))) ∧
      (list.insert id phas).nextSeq = list.nextSeq + 1 ∧ Sound (list.insert id phas) := by
    rw [ScanList.insert, absent]
    have counted : Sound { list with nextSeq := (list.nextSeq + 1) % 2 ^ 64 } := ⟨refines.sorted, refines.same⟩
    exact ⟨rfl, Nat.mod_eq_of_lt room, counted.placed absent fun other taken => (refines.issued other _ taken).1.ne rfl⟩
  obtain ⟨index, nextSeq, sound⟩ := fields
  refine ⟨fun seq => if seq < list.nextSeq then times seq else calls.length + (seq - list.nextSeq),
    Function.update owner list.nextSeq id, refines.next sound index (fun other same => if_neg (Ne.symm same)) ?_ ?_ ?_ ?_
    (by omega) (fun key found => ?_) ?_⟩
  · rw [standing, if_pos rfl, refines.stands, absent]
    simp
  · intro seq below
    exact ⟨if_pos below, Function.update_of_ne below.ne _ _⟩
  · intro seq later less
    have early := refines.past seq
    have increasing := refines.increasing less
    simp only
    split_ifs <;> omega
  · intro seq below
    have early := refines.past seq
    split_ifs <;> omega
  · cases found
    exact ⟨nextSeq ▸ Nat.lt_succ_self _, Function.update_self _ _ _⟩
  · rw [nextSeq, List.countP_cons_of_pos rfl]
    exact Nat.succ_le_succ refines.few

end Refines

theorem after_refines {calls : List ScanCall} (few : calls.countP ScanCall.isInsert < 2 ^ 64) :
    ∃ times owner, Refines calls times owner (after calls) := by
  induction calls with
  | nil =>
    exact ⟨id, fun _ => ⟨0, 0⟩, ⟨.nil, fun _ _ => by simp [after, new]⟩, fun _ => rfl, strictMono_id,
      fun _ below => absurd below (Nat.not_lt_zero _), fun _ _ present => (by cases present), Nat.zero_le _⟩
  | cons call calls ih =>
    obtain ⟨times, owner, refines⟩ := ih (((List.sublist_cons_self _ _).countP_le).trans_lt few)
    cases call with
    | remove id => exact ⟨times, owner, refines.remove id⟩
    | insert id phas =>
      cases status : (after calls).index id with
      | some old => exact ⟨times, owner, refines.insert_member id phas status⟩
      | none =>
        refine refines.insert_fresh id phas status ?_
        rw [List.countP_cons_of_pos rfl] at few
        exact (Nat.succ_le_succ refines.few).trans_lt few

/-- The one record is to be processed before the other. -/
def InOrder (calls : List ScanCall) (a b : RecordId) : Prop :=
  ∃ k ∈ standing a calls, ∃ l ∈ standing b calls, k < l

theorem Refines.ordered {calls : List ScanCall} {times : Nat → Nat} {owner : Nat → RecordId} {list : ScanList}
    (refines : Refines calls times owner list) : list.snapshot.Pairwise (InOrder calls) := by
  refine List.pairwise_map.mpr (refines.sorted.imp_of_mem fun {a b} first second less => ?_)
  have held : ∀ entry ∈ list.members,
      standing entry.2 calls = some (toLex ((ofLex entry.1).1, times (ofLex entry.1).2)) := by
    intro entry member
    rw [refines.stands, (refines.same entry.1 entry.2).mp member, Option.map_some]
  refine ⟨_, held a first, _, held b second, ?_⟩
  rw [Prod.Lex.lt_iff] at less ⊢
  exact less.imp_right (And.imp_right fun earlier => refines.increasing earlier)

/-- The list shows the members by PHAS and then by when they became members, whatever calls
came before, as long as the counter of insertions does not wrap. -/
theorem scanList_refines (calls : List ScanCall) (few : calls.countP ScanCall.isInsert < 2 ^ 64) :
    (after calls).snapshot.Nodup ∧ (∀ id, id ∈ (after calls).snapshot ↔ (standing id calls).isSome) ∧
      (after calls).snapshot.Pairwise (InOrder calls) ∧
      (∀ key id, (key, id) ∈ (after calls).members ↔ (after calls).index id = some key) ∧
      ∀ id, ((after calls).remove id).2 = (standing id calls).isSome := by
  obtain ⟨times, owner, refines⟩ := after_refines few
  refine ⟨refines.ordered.imp ?_, fun id => ?_, refines.ordered, refines.same, fun id => ?_⟩
  · rintro a b ⟨k, first, l, second, less⟩ rfl
    exact less.ne (Option.mem_unique first second)
  · rw [refines.stands, Option.isSome_map, Option.isSome_iff_exists]
    simp [snapshot, refines.same]
  · rw [refines.stands, Option.isSome_map, ScanList.remove]
    split
    next absent => rw [absent]; rfl
    next key present => rw [present]; rfl

theorem scanList_refines_moved :
    ∃ calls, calls.countP ScanCall.isInsert < 2 ^ 64 ∧ (after calls).snapshot = [⟨0, 1⟩, ⟨0, 0⟩] ∧
      (after calls).snapshot.Pairwise (InOrder calls) :=
  ⟨[.insert ⟨0, 0⟩ 1, .insert ⟨0, 1⟩ 0, .insert ⟨0, 0⟩ 0], by decide, rfl, (scanList_refines _ (by decide)).2.2.1⟩

def lone (count : Nat) : ScanList :=
  { new.place (toLex (0, 0)) ⟨0, 0⟩ with nextSeq := count }

theorem lone_churn (count : Nat) :
    (((lone count).insert ⟨0, 1⟩ 1).remove ⟨0, 1⟩).1 = lone ((count + 1) % 2 ^ 64) := by
  let added : ScanList := ⟨[(toLex (0, 0), ⟨0, 0⟩), (toLex (1, count), ⟨0, 1⟩)],
    Function.update (lone count).index ⟨0, 1⟩ (some (toLex (1, count))), (count + 1) % 2 ^ 64⟩
  have insert : (lone count).insert ⟨0, 1⟩ 1 = added := rfl
  have found : added.locate (toLex (1, count)) = some 1 := by
    simp [added, locate, binarySearchBy, halve, verdict, Except.toOption]
  have present : added.index ⟨0, 1⟩ = some (toLex (1, count)) := rfl
  have emptied : Function.update added.index ⟨0, 1⟩ none = (lone count).index :=
    (Function.update_idem _ _ _).trans (Function.update_eq_self _ _)
  rw [insert, remove, present]
  simp only [without, found, emptied]
  rfl

/-- One record is added, then another is added and removed `n` times. -/
def churn : Nat → List ScanCall
  | 0 => [.insert ⟨0, 0⟩ 0]
  | n + 1 => .remove ⟨0, 1⟩ :: .insert ⟨0, 1⟩ 1 :: churn n

theorem after_churn (n : Nat) : after (churn n) = lone ((n + 1) % 2 ^ 64) := by
  induction n with
  | zero => rfl
  | succ n ih => rw [churn, after, after, ih, perform, perform, lone_churn, Nat.mod_add_mod]

theorem standing_churn (n : Nat) : standing ⟨0, 0⟩ (churn n) = some (toLex (0, 0)) := by
  induction n with
  | zero => rfl
  | succ n ih => exact ih

/-- After `2 ^ 64` insertions the numbers begin again, and a record added then is taken for
the first. -/
theorem count_wraps :
    ∃ calls, (after calls).snapshot = [⟨0, 2⟩, ⟨0, 0⟩] ∧ ¬ (after calls).snapshot.Pairwise (InOrder calls) := by
  have wrap (n : Nat) (full : (n + 1) % 2 ^ 64 = 0) :
      (after (.insert ⟨0, 2⟩ 0 :: churn n)).snapshot = [⟨0, 2⟩, ⟨0, 0⟩] := by
    rw [after, after_churn, full]
    rfl
  have order (n : Nat) : ¬ InOrder (.insert ⟨0, 2⟩ 0 :: churn n) ⟨0, 2⟩ ⟨0, 0⟩ := by
    rintro ⟨k, last, l, first, less⟩
    cases (standing_churn n).symm.trans first
    rw [standing, if_pos rfl] at last
    split at last <;> cases last <;> simp [Prod.Lex.lt_iff] at less
  refine ⟨_, wrap (2 ^ 64 - 1) (by norm_num), ?_⟩
  rw [wrap _ (by norm_num), List.pairwise_pair]
  exact order _

end ScanList

end Spvirit.Ioc
