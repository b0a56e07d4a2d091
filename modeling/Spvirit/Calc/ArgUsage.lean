import Spvirit.Calc.StackSafety

/-! The operands a program reads and stores, by one walk over its instructions. -/

namespace Spvirit.Calc

/-- One bit for each operand `A`-`U`. -/
structure ArgUsage where
  inputs : BitVec 32
  stores : BitVec 32
  deriving DecidableEq

namespace ArgUsage

/-- A fetch counts unless a store to the same operand has been passed. -/
def walk (usage : ArgUsage) : Op → ArgUsage
  | .arg slot => { usage with inputs := usage.inputs ||| ((1#32 <<< slot.val) &&& ~~~ usage.stores) }
  | .store slot => { usage with stores := usage.stores ||| (1#32 <<< slot.val) }
  | _ => usage

def Stores (usage : ArgUsage) (slot : Slot) : Prop := usage.stores.getLsbD slot.val = true

end ArgUsage

def argUsage (ops : List Op) : ArgUsage := ops.foldl ArgUsage.walk ⟨0, 0⟩

theorem getLsbD_bit (slot other : Slot) : (1#32 <<< slot.val).getLsbD other.val = decide (other = slot) := by
  revert slot other
  decide

variable {ops : List Op} {op : Op} {slot : Slot}

namespace ArgUsage

theorem walk_stores (usage : ArgUsage) : (usage.walk op).Stores slot ↔ usage.Stores slot ∨ .store slot = op := by
  unfold Stores walk
  split
  · simp
  · rw [BitVec.getLsbD_or, getLsbD_bit, Bool.or_eq_true, decide_eq_true_eq, Op.store.injEq]
  · next _ other => exact (or_iff_left fun same => other slot same.symm).symm

theorem foldl_stores (usage : ArgUsage) :
    (ops.foldl walk usage).Stores slot ↔ usage.Stores slot ∨ .store slot ∈ ops := by
  induction ops generalizing usage with
  | nil => simp
  | cons op ops ih => rw [List.foldl_cons, ih, walk_stores, List.mem_cons, or_assoc]

end ArgUsage

theorem argUsage_stores : (argUsage ops).Stores slot ↔ .store slot ∈ ops := by
  rw [argUsage, ArgUsage.foldl_stores, or_iff_right (by simp [ArgUsage.Stores])]

namespace Machine

variable {V : Type} [F64 V] {draws : Nat → V} {m m' : Machine V} {visited : List Nat}

theorem exec_args (other : .store slot ≠ op) (next : m.exec draws op = some m') : m'.args slot = m.args slot := by
  unfold exec at next
  split at next
  case h_7 written =>
    split at next
    · contradiction
    · cases next
      exact Function.update_of_ne (fun same => other (congrArg Op.store same)) _ _
  all_goals
    first | cases next | split at next <;> cases next
    rfl

/-- A run changes the operands its program stores, and no others. -/
theorem runs_args (unstored : .store slot ∉ ops) (run : Runs draws ops m visited m') :
    m'.args slot = m.args slot := by
  induction run with
  | refl => rfl
  | step _ next _ ih =>
    obtain ⟨op, here, done⟩ := Option.bind_eq_some_iff.mp next
    have other : .store slot ≠ op := fun same => unstored (same ▸ List.mem_of_getElem? here)
    exact ih.trans (exec_args other done)

end Machine

/-- A compiled expression evaluates whatever its operands and the random draws, and
the operands that differ afterwards are among those reported as stored. -/
theorem eval_changes_stores (src : String) (ops : List Op) (compiled : compile src = .ok ops) (V : Type) [F64 V]
    (args : Slot → V) (draws : Nat → V) : ∃ value after drawn,
      eval ops args draws = some (value, after, drawn) ∧
      ∀ slot, after slot ≠ args slot → (argUsage ops).Stores slot := by
  obtain ⟨toks, s, -, -, finished⟩ := compile_ok compiled
  obtain ⟨-, -, -, check⟩ := finishParse_ok finished
  obtain ⟨depth, segment, -⟩ := checkArity_ok check
  obtain ⟨visited, m, run, stopped, -, rising⟩ :=
    checkSegment_sound 0 ops.length 0 depth (Nat.zero_le _) segment draws ⟨0, [], args, 0⟩ rfl rfl
  have looped := run.loop_eq (by simp [Machine.halted, stopped]) (by simpa using rising.length_le)
  refine ⟨_, m.args, _, congrArg (Option.map _) looped, fun slot changed => ?_⟩
  rw [argUsage_stores]
  by_contra unstored
  exact changed (Machine.runs_args unstored run)

theorem eval_changes_stores_assign : compile "A:=B;A" = .ok [.arg 1, .store 0, .arg 0] ∧
    ∀ (V : Type) [F64 V] (args : Slot → V) (draws : Nat → V), ∃ value after drawn,
      eval [.arg 1, .store 0, .arg 0] args draws = some (value, after, drawn) ∧ ∀ slot ≠ 0, after slot = args slot := by
  have compiled : compile "A:=B;A" = .ok [.arg 1, .store 0, .arg 0] := by decide +kernel
  refine ⟨compiled, fun V _ args draws => ?_⟩
  obtain ⟨value, after, drawn, ran, stored⟩ := eval_changes_stores _ _ compiled V args draws
  refine ⟨value, after, drawn, ran, fun slot other => ?_⟩
  by_contra changed
  simpa [other] using argUsage_stores.mp (stored slot changed)

end Spvirit.Calc
