import Spvirit.Server.Connection

/-! The requests bound to the channels of a connection, and what is left of a destroyed channel. -/

namespace Spvirit

inductive TableOp where
  | insertChannel (cid sid : UInt32) (pv : String)
  | removeChannel (cid sid : UInt32)
  | removeChannelIfCurrent (cid sid : UInt32)
  | bindMonitor (ioid sid : UInt32)
  | unbindMonitor (ioid : UInt32)

def TableOp.apply (t : ChannelTables) : TableOp → ChannelTables
  | .insertChannel cid sid pv => t.insertChannel cid sid pv
  | .removeChannel cid sid => t.removeChannel cid sid
  | .removeChannelIfCurrent cid sid => (t.removeChannelIfCurrent cid sid).1
  | .bindMonitor ioid sid => t.bindMonitor ioid sid
  | .unbindMonitor ioid => t.unbindMonitor ioid

/-- The map from channels to their requests, row by row: a row that is there may be empty. -/
abbrev IoidRows := UInt32 → Option (Finset UInt32)

/-- A request is taken out of a row, and the row with its last request. -/
def releaseIoid (rows : IoidRows) (sid ioid : UInt32) : IoidRows :=
  Function.update rows sid ((rows sid).bind fun set => if set.erase ioid = ∅ then none else some (set.erase ioid))

/-- What a call does to the rows. -/
def TableOp.onRows (t : ChannelTables) (rows : IoidRows) : TableOp → IoidRows
  | .insertChannel _ _ _ => rows
  | .removeChannel _ sid | .removeChannelIfCurrent _ sid => Function.update rows sid none
  | .bindMonitor ioid sid =>
    let released :=
      match t.ioidToSid ioid with
      | some old => if old ≠ sid then releaseIoid rows old ioid else rows
      | none => rows
    Function.update released sid (some (insert ioid ((released sid).getD ∅)))
  | .unbindMonitor ioid =>
    match t.ioidToSid ioid with
    | some sid => releaseIoid rows sid ioid
    | none => rows

/-- The tables after the calls, with the rows beside them. -/
def tablesAfter (ops : List TableOp) : ChannelTables × IoidRows :=
  ops.foldl (fun s op => (op.apply s.1, op.onRows s.1 s.2)) (.empty, fun _ => none)

/-- A request stands in the set of the channel it is bound to, and in no other. -/
def ChannelTables.Bound (t : ChannelTables) : Prop := ∀ ioid sid, ioid ∈ t.sidToIoids sid ↔ t.ioidToSid ioid = some sid

def rowOf (set : Finset UInt32) : Option (Finset UInt32) := if set = ∅ then none else some set

theorem rowOf_getD (set : Finset UInt32) : (rowOf set).getD ∅ = set := by
  unfold rowOf
  split_ifs with none
  · exact none.symm
  · rfl

theorem releaseIoid_rowOf (sets : UInt32 → Finset UInt32) (sid ioid : UInt32) :
    releaseIoid (fun k => rowOf (sets k)) sid ioid =
      fun k => rowOf (Function.update sets sid ((sets sid).erase ioid) k) := by
  funext k
  unfold releaseIoid rowOf
  by_cases here : k = sid
  · subst here
    by_cases none : sets k = ∅ <;> simp [none]
  · simp [here]

namespace ChannelTables

variable {t : ChannelTables}

theorem onRows_rowOf (t : ChannelTables) (op : TableOp) :
    op.onRows t (fun sid => rowOf (t.sidToIoids sid)) = fun sid => rowOf ((op.apply t).sidToIoids sid) := by
  have removed : ∀ sid, Function.update (fun k => rowOf (t.sidToIoids k)) sid none =
      fun k => rowOf (Function.update t.sidToIoids sid ∅ k) := by
    intro sid
    funext k
    by_cases here : k = sid <;> simp [here, rowOf]
  have bound : ∀ (sets : UInt32 → Finset UInt32) ioid sid,
      Function.update (fun k => rowOf (sets k)) sid (some (insert ioid ((rowOf (sets sid)).getD ∅))) =
        fun k => rowOf (Function.update sets sid (insert ioid (sets sid)) k) := by
    intro sets ioid sid
    rw [rowOf_getD]
    funext k
    by_cases here : k = sid <;> simp [here, rowOf]
  cases op with
  | insertChannel cid sid pv => rfl
  | removeChannel cid sid => exact removed sid
  | removeChannelIfCurrent cid sid =>
    simp only [TableOp.onRows, TableOp.apply, ChannelTables.removeChannelIfCurrent]
    split_ifs <;> exact removed sid
  | bindMonitor ioid sid =>
    simp only [TableOp.onRows, TableOp.apply, ChannelTables.bindMonitor]
    cases t.ioidToSid ioid with
    | none => exact bound _ ioid sid
    | some old =>
      dsimp only
      split_ifs
      · rw [releaseIoid_rowOf]
        exact bound _ ioid sid
      · exact bound _ ioid sid
  | unbindMonitor ioid =>
    simp only [TableOp.onRows, TableOp.apply, ChannelTables.unbindMonitor]
    cases t.ioidToSid ioid with
    | none => rfl
    | some sid => exact releaseIoid_rowOf _ sid ioid

theorem Bound.removeChannel (bound : t.Bound) (cid sid : UInt32) : (t.removeChannel cid sid).Bound := by
  intro ioid k
  have here := bound ioid sid
  have there := bound ioid k
  simp only [ChannelTables.removeChannel, Function.update_apply]
  grind

theorem Bound.apply (bound : t.Bound) (op : TableOp) : (op.apply t).Bound := by
  cases op with
  | insertChannel cid sid pv => exact bound
  | removeChannel cid sid => exact bound.removeChannel cid sid
  | removeChannelIfCurrent cid sid =>
    unfold TableOp.apply ChannelTables.removeChannelIfCurrent
    dsimp only
    split <;> exact bound.removeChannel cid sid
  | bindMonitor ioid sid =>
    intro i k
    have here := bound i k
    have old := bound ioid k
    simp only [TableOp.apply, ChannelTables.bindMonitor, Function.update_apply]
    cases found : t.ioidToSid ioid with
    | none => grind
    | some before =>
      by_cases same : before = sid
      · grind
      · simp only [ne_eq, same, not_false_eq_true, if_true, Function.update_apply]
        grind
  | unbindMonitor ioid =>
    intro i k
    have here := bound i k
    have old := bound ioid k
    simp only [TableOp.apply, ChannelTables.unbindMonitor]
    cases found : t.ioidToSid ioid with
    | none => exact here
    | some before =>
      simp only [Function.update_apply]
      grind

end ChannelTables

/-- After any calls the rows are those of the sets, and the sets those of the bindings. -/
theorem tablesAfter_bound (ops : List TableOp) :
    (tablesAfter ops).2 = (fun sid => rowOf ((tablesAfter ops).1.sidToIoids sid)) ∧ (tablesAfter ops).1.Bound := by
  have run : ∀ s : ChannelTables × IoidRows, s.2 = (fun sid => rowOf (s.1.sidToIoids sid)) ∧ s.1.Bound →
      (ops.foldl (fun s op => (op.apply s.1, op.onRows s.1 s.2)) s).2 = (fun sid => rowOf
        ((ops.foldl (fun s op => (op.apply s.1, op.onRows s.1 s.2)) s).1.sidToIoids sid)) ∧
        (ops.foldl (fun s op => (op.apply s.1, op.onRows s.1 s.2)) s).1.Bound := by
    induction ops with
    | nil => exact fun s holds => holds
    | cons op ops ih =>
      rintro ⟨t, rows⟩ ⟨same, bound⟩
      obtain rfl : rows = fun sid => rowOf (t.sidToIoids sid) := same
      exact ih _ ⟨t.onRows_rowOf op, bound.apply op⟩
  exact run _ ⟨by simp [ChannelTables.empty, rowOf], by simp [ChannelTables.Bound, ChannelTables.empty]⟩

/-- After every sequence of calls on fresh tables the two maps are inverse to each other and no
row is empty; a channel that is not the current one of a client id leaves its entry alone. -/
theorem bindings_consistent (ops : List TableOp) :
    (∀ ioid sid, (∃ set, (tablesAfter ops).2 sid = some set ∧ ioid ∈ set) ↔ (tablesAfter ops).1.ioidToSid ioid = some sid) ∧
    (∀ sid, (tablesAfter ops).2 sid ≠ some ∅) ∧
    ∀ cid sid, (tablesAfter ops).1.cidToSid cid ≠ some sid →
      ((tablesAfter ops).1.removeChannelIfCurrent cid sid).1.cidToSid cid = (tablesAfter ops).1.cidToSid cid := by
  obtain ⟨rows, bound⟩ := tablesAfter_bound ops
  rw [rows]
  refine ⟨fun ioid sid => ?_, fun sid => ?_, fun cid sid other => ?_⟩
  · rw [← bound]
    by_cases none : (tablesAfter ops).1.sidToIoids sid = ∅ <;> simp [rowOf, none]
  · by_cases none : (tablesAfter ops).1.sidToIoids sid = ∅ <;> simp [rowOf, none]
  · simp [ChannelTables.removeChannelIfCurrent, other]

/-- Nothing of a channel is left in the tables, and nothing of the requests bound to it before. -/
structure ConnState.Purged (before after : ConnState) (sid : UInt32) : Prop where
  cid : ∀ cid, after.channels.cidToSid cid ≠ some sid
  row : after.channels.sidToCid sid = none ∧ after.channels.sidToPv sid = none ∧ after.channels.sidToIoids sid = ∅
  ioid : ∀ ioid, after.channels.ioidToSid ioid ≠ some sid
  requests : ∀ ioid, before.channels.ioidToSid ioid = some sid →
    after.ioidToDesc ioid = none ∧ after.ioidToPv ioid = none ∧ after.ioidToMonitor ioid = none

/-- A connection whose tables have such a history, whatever it knows of its requests. -/
def ConnState.after (s : ConnState) (ops : List TableOp) : ConnState := { s with channels := (tablesAfter ops).1 }

/-- A destroyed channel leaves no trace just if no client id but the one named points to it. -/
theorem purge_leaves_no_trace_iff (s : ConnState) (ops : List TableOp) (cid sid : UInt32) :
    (s.after ops).Purged (purgeChannelRequests (s.after ops) cid sid) sid ↔
      ∀ other, (s.after ops).channels.cidToSid other = some sid → other = cid := by
  have bound : (s.after ops).channels.Bound := (tablesAfter_bound ops).2
  generalize s.after ops = s at bound ⊢
  have removed : ∀ c, (s.channels.removeChannelIfCurrent cid sid).1.cidToSid c ≠ some sid ↔
      (s.channels.cidToSid c = some sid → c = cid) := by
    intro c
    unfold ChannelTables.removeChannelIfCurrent ChannelTables.removeChannel
    split_ifs with current <;> simp only [Function.update_apply] <;> grind
  have rest := bound.apply (.removeChannelIfCurrent cid sid)
  have gone : (s.channels.removeChannelIfCurrent cid sid).1.sidToCid sid = none ∧
      (s.channels.removeChannelIfCurrent cid sid).1.sidToPv sid = none ∧
      (s.channels.removeChannelIfCurrent cid sid).1.sidToIoids sid = ∅ := by
    unfold ChannelTables.removeChannelIfCurrent ChannelTables.removeChannel
    split <;> simp
  constructor
  · exact fun purged other points => (removed other).mp (purged.cid other) points
  · intro only
    refine ⟨fun c => (removed c).mpr (only c), gone, fun ioid here => ?_, fun ioid there => ?_⟩
    · have member := (rest ioid sid).mpr here
      rw [TableOp.apply, gone.2.2] at member
      simp at member
    · have member := (bound ioid sid).mpr there
      simp [purgeChannelRequests, ConnState.forget, ChannelTables.ioidsForSid, member]

/-- Channel 5 is destroyed under a client id that is not its own, and its own id still points to it. -/
theorem purge_misnamed : ¬ (ConnState.empty.after [.insertChannel 1 5 "pv"]).Purged
    (purgeChannelRequests (ConnState.empty.after [.insertChannel 1 5 "pv"]) 2 5) 5 :=
  fun purged => purged.cid 1 (by decide)

end Spvirit
