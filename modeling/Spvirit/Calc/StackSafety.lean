import Spvirit.Calc.Parse
import Spvirit.Calc.Eval

/-! Programs that pass the arity check run without touching an empty stack. -/

namespace Spvirit.Calc

open Trace

/-- Operations that pop their operands and push one value. -/
def Op.isPlain : Op → Bool
  | .condIf _ | .condElse _ | .condEnd | .store _ => false
  | _ => true

/-- A conditional that starts at `i` as the compiler lays it out: the condition
test, the then-branch, the jump over the else-branch, the else-branch, the end. -/
structure CondLayout (ops : List Op) (i elseIdx endIdx : Nat) : Prop where
  test : ops[i]? = some (.condIf (elseIdx + 1))
  jump : ops[elseIdx]? = some (.condElse (endIdx + 1))
  mark : ops[endIdx]? = some .condEnd
  then_lt : i < elseIdx
  else_lt : elseIdx < endIdx

theorem checkSegment_end (ops : List Op) (i depth : Nat) : checkSegment ops i i depth = .ok depth := by
  rw [checkSegment, dif_neg (Nat.lt_irrefl _)]

theorem checkSegment_cond {ops : List Op} {i stop depth d elseTarget : Nat} (inside : i < stop)
    (test : ops[i]? = some (.condIf elseTarget)) (check : checkSegment ops i stop depth = .ok d) :
    ∃ elseIdx endIdx, CondLayout ops i elseIdx endIdx ∧ endIdx < stop ∧ 1 ≤ depth ∧
      checkSegment ops (i + 1) elseIdx (depth - 1) = .ok depth ∧
      checkSegment ops (elseIdx + 1) endIdx (depth - 1) = .ok depth ∧
      checkSegment ops (endIdx + 1) stop depth = .ok d := by
  rw [checkSegment] at check
  simp only [inside, dite_true, test] at check
  split at check
  · contradiction
  rename_i deep
  split at check
  · contradiction
  rename_i bounds
  split at check
  next endTarget jump =>
    split at check
    · contradiction
    rename_i outside
    split at check
    · contradiction
    rename_i mark
    obtain ⟨elseIdx, rfl⟩ : ∃ k, elseTarget = k + 1 := ⟨elseTarget - 1, by omega⟩
    obtain ⟨endIdx, rfl⟩ : ∃ k, endTarget = k + 1 := ⟨endTarget - 1, by omega⟩
    simp only [Nat.add_sub_cancel, not_not] at jump mark check bounds outside
    cases thenCheck : checkSegment ops (i + 1) elseIdx (depth - 1) with
    | error e => simp [thenCheck, bind, Except.bind] at check
    | ok thenDepth =>
      simp only [thenCheck, bind, Except.bind] at check
      split at check
      · contradiction
      rename_i thenOk
      cases elseCheck : checkSegment ops (elseIdx + 1) endIdx (depth - 1) with
      | error e => simp [elseCheck] at check
      | ok elseDepth =>
        simp only [elseCheck] at check
        split at check
        · contradiction
        rename_i elseOk
        have differ : elseIdx ≠ endIdx := by
          rintro rfl
          rw [jump] at mark
          simp at mark
        exact ⟨elseIdx, endIdx, ⟨test, jump, mark, by omega, by omega⟩, by omega, by omega,
          by rw [thenCheck, not_not.mp thenOk], by rw [elseCheck, not_not.mp elseOk], check⟩
  · contradiction

/-- One turn of the arity check, by what stands at `i`. -/
theorem checkSegment_cases {ops : List Op} {i stop depth d : Nat} (inside : i < stop)
    (check : checkSegment ops i stop depth = .ok d) :
    (∃ op, ops[i]? = some op ∧ op.isPlain = true ∧ arity op ≤ depth ∧
      checkSegment ops (i + 1) stop (depth - arity op + 1) = .ok d) ∨
    (∃ slot, ops[i]? = some (.store slot) ∧ 1 ≤ depth ∧ checkSegment ops (i + 1) stop (depth - 1) = .ok d) ∨
    (∃ elseIdx endIdx, CondLayout ops i elseIdx endIdx ∧ endIdx < stop ∧ 1 ≤ depth ∧
      checkSegment ops (i + 1) elseIdx (depth - 1) = .ok depth ∧
      checkSegment ops (elseIdx + 1) endIdx (depth - 1) = .ok depth ∧
      checkSegment ops (endIdx + 1) stop depth = .ok d) := by
  have unfolded := check
  rw [checkSegment] at unfolded
  simp only [inside, dite_true] at unfolded
  split at unfolded
  · next test => exact Or.inr (Or.inr (checkSegment_cond inside test check))
  · contradiction
  · contradiction
  · contradiction
  · next slot here =>
    split at unfolded
    · contradiction
    · exact Or.inr (Or.inl ⟨slot, here, by omega, unfolded⟩)
  · next op noIf noElse noEnd noStore here =>
    split at unfolded
    · contradiction
    · refine Or.inl ⟨op, here, ?_, by omega, unfolded⟩
      cases op <;> simp_all [Op.isPlain]

section

variable {V : Type} {ops : List Op}

namespace Machine

theorem active {op : Op} {m : Machine V} (here : ops[m.ip]? = some op) : m.halted ops = false := by
  obtain ⟨inside, _⟩ := List.getElem?_eq_some_iff.mp here
  simp [halted, inside]

variable [F64 V] (draws : Nat → V)

/-- The runs of a program on one sequence of random draws. -/
abbrev Runs (ops : List Op) (m : Machine V) (visited : List Nat) (m' : Machine V) : Prop :=
  Run (halted ops) ip (step ops draws) m visited m'

theorem exec_plain {op : Op} (m : Machine V) (plain : op.isPlain = true) (enough : arity op ≤ m.stack.length) :
    ∃ m', m.exec draws op = some m' ∧ m'.ip = m.ip + 1 ∧ m'.stack.length = m.stack.length - arity op + 1 := by
  cases op <;> simp_all [Op.isPlain, exec, push, arity, Nat.not_lt.mpr]

variable {draws}

theorem runs_single {op : Op} {m m' : Machine V} (here : ops[m.ip]? = some op)
    (next : m.exec draws op = some m') : Runs draws ops m [m.ip] m' :=
  .single (active here) (by simp [step, here, next])

end Machine

/-- From any machine at `i` with `depth` values, the program runs to `stop`,
visiting instructions in rising order, and leaves `d` values. -/
def Segment (V : Type) [F64 V] (ops : List Op) (i stop depth d : Nat) : Prop :=
  ∀ (draws : Nat → V) (m : Machine V), m.ip = i → m.stack.length = depth →
    ∃ visited m', Machine.Runs draws ops m visited m' ∧ m'.ip = stop ∧ m'.stack.length = d ∧ Rising i stop visited

namespace Segment

variable [F64 V] {i mid stop depth d e : Nat}

theorem refl : Segment V ops i i d d :=
  fun _ m start deep => ⟨[], m, .refl m, start, deep, .nil le_rfl⟩

theorem trans (first : Segment V ops i mid depth e) (second : Segment V ops mid stop e d) :
    Segment V ops i stop depth d := by
  intro draws m start deep
  obtain ⟨before, m', run, moved, left, rising⟩ := first draws m start deep
  obtain ⟨visited, t, run', stopped, final, rising'⟩ := second draws m' moved left
  exact ⟨_, t, run.trans run', stopped, final, rising.append rising'⟩

theorem single {op : Op} (here : ops[i]? = some op) (next : ∀ (draws : Nat → V) (m : Machine V), m.ip = i →
    m.stack.length = depth → ∃ m', m.exec draws op = some m' ∧ m'.ip = i + 1 ∧ m'.stack.length = d) :
    Segment V ops i (i + 1) depth d := by
  intro draws m start deep
  obtain ⟨m', exec, moved, left⟩ := next draws m start deep
  subst start
  exact ⟨_, m', Machine.runs_single here exec, moved, left, .cons le_rfl (.nil le_rfl)⟩

theorem plain {op : Op} (here : ops[i]? = some op) (isPlain : op.isPlain = true) (enough : arity op ≤ depth) :
    Segment V ops i (i + 1) depth (depth - arity op + 1) := by
  refine single here fun draws m start deep => ?_
  obtain ⟨m', exec, moved, left⟩ := m.exec_plain draws isPlain (by omega)
  exact ⟨m', exec, by omega, by omega⟩

theorem store {slot : Slot} (here : ops[i]? = some (.store slot)) (enough : 1 ≤ depth) :
    Segment V ops i (i + 1) depth (depth - 1) := by
  refine single here fun draws m start deep => ?_
  obtain ⟨v, stack, top⟩ : ∃ v stack, m.stack = v :: stack := List.exists_cons_of_length_pos (by omega)
  exact ⟨{ m with ip := m.ip + 1, stack := stack, args := Function.update m.args slot v },
    by simp [Machine.exec, top], by simp [start], by simp [← deep, top]⟩

theorem mark (here : ops[i]? = some .condEnd) : Segment V ops i (i + 1) depth depth :=
  single here fun _ m start deep => ⟨{ m with ip := m.ip + 1 }, rfl, by simp [start], deep⟩

/-- Either branch of a conditional leads to the instruction after it, with one
value in place of the condition. -/
theorem cond {elseIdx endIdx : Nat} (layout : CondLayout ops i elseIdx endIdx)
    (thenBranch : Segment V ops (i + 1) elseIdx depth (depth + 1))
    (elseBranch : Segment V ops (elseIdx + 1) endIdx depth (depth + 1)) :
    Segment V ops i (endIdx + 1) (depth + 1) (depth + 1) := by
  intro draws m start deep
  have forward := layout.then_lt.trans layout.else_lt
  obtain ⟨c, stack, top⟩ : ∃ c stack, m.stack = c :: stack := List.exists_cons_of_length_pos (by omega)
  have popped : stack.length = depth := by simpa [top] using deep
  have test := layout.test
  subst start
  by_cases zeroCond : F64.eq c zero = true
  · have exec : m.exec draws (.condIf (elseIdx + 1)) = some { m with ip := elseIdx + 1, stack := stack } := by
      simp [Machine.exec, top, zeroCond]
    obtain ⟨visited, t, run, stopped, final, rising⟩ :=
      (elseBranch.trans (mark layout.mark)) draws { m with ip := elseIdx + 1, stack := stack } rfl popped
    refine ⟨_, t, (Machine.runs_single test exec).trans run, stopped, final, .cons le_rfl ?_⟩
    exact (Rising.nil (by have := layout.then_lt; omega)).append rising
  · have exec : m.exec draws (.condIf (elseIdx + 1)) = some { m with ip := m.ip + 1, stack := stack } := by
      simp [Machine.exec, top, zeroCond]
    obtain ⟨visited, t, run, stopped, final, rising⟩ :=
      thenBranch draws { m with ip := m.ip + 1, stack := stack } rfl popped
    have jump := layout.jump
    rw [← stopped] at jump
    have leap : t.exec draws (.condElse (endIdx + 1)) = some { t with ip := endIdx + 1 } := rfl
    refine ⟨_, { t with ip := endIdx + 1 }, ((Machine.runs_single test exec).trans run).trans
      (Machine.runs_single jump leap), rfl, final, .cons le_rfl (rising.append ?_)⟩
    exact .cons stopped.ge (.nil (by have := layout.else_lt; omega))

end Segment

theorem checkSegment_sound [F64 V] (i stop depth d : Nat) (ordered : i ≤ stop)
    (check : checkSegment ops i stop depth = .ok d) : Segment V ops i stop depth d := by
  rcases ordered.lt_or_eq with inside | rfl
  · rcases checkSegment_cases inside check with
      ⟨op, here, plain, enough, rest⟩ | ⟨slot, here, enough, rest⟩ |
        ⟨elseIdx, endIdx, layout, within, enough, thenCheck, elseCheck, rest⟩
    · exact (Segment.plain here plain enough).trans (checkSegment_sound (i + 1) stop _ d inside rest)
    · exact (Segment.store here enough).trans (checkSegment_sound (i + 1) stop _ d inside rest)
    · have := layout.then_lt
      have := layout.else_lt
      obtain ⟨below, rfl⟩ : ∃ k, depth = k + 1 := ⟨depth - 1, by omega⟩
      have thenBranch := checkSegment_sound (i + 1) elseIdx _ _ (by omega) thenCheck
      have elseBranch := checkSegment_sound (elseIdx + 1) endIdx _ _ (by omega) elseCheck
      exact (Segment.cond layout thenBranch elseBranch).trans (checkSegment_sound (endIdx + 1) stop _ d within rest)
  · rw [checkSegment_end] at check
    cases check
    exact .refl
termination_by stop - i

theorem finishParse_ok {s : ParseState} {noTokens : Bool} (finished : finishParse s noTokens = .ok ops) :
    unwind s.stack s.out = ([], ops) ∧ (s.expectOperand = true → noTokens = true) ∧ ops.length ≤ maxOps ∧
      checkArity ops = .ok () := by
  unfold finishParse at finished
  split at finished
  · next out flushed =>
    split at finished
    · contradiction
    rename_i closed
    split at finished
    · contradiction
    rename_i short
    cases check : checkArity out with
    | error e => simp [check, bind, Except.bind] at finished
    | ok _ =>
      simp only [check, bind, Except.bind, Except.ok.injEq] at finished
      subst finished
      exact ⟨flushed, by simpa using closed, by omega, check⟩
  · contradiction
  · contradiction
  · contradiction

theorem checkArity_ok (check : checkArity ops = .ok ()) :
    ∃ depth, checkSegment ops 0 ops.length 0 = .ok depth ∧ (depth = 0 ∧ ops = [] ∨ depth = 1) := by
  unfold checkArity at check
  cases segment : checkSegment ops 0 ops.length 0 with
  | error e => simp [segment, bind, Except.bind] at check
  | ok depth =>
    refine ⟨depth, rfl, ?_⟩
    by_contra bad
    simp [segment, bind, Except.bind, bad] at check

theorem compile_ok {src : String} (compiled : compile src = .ok ops) :
    ∃ toks s, lex src = .ok toks ∧ ParseState.init.run toks = .ok s ∧ finishParse s toks.isEmpty = .ok ops := by
  unfold compile compileTokens at compiled
  cases lexed : lex src with
  | error e => simp [lexed, bind, Except.bind] at compiled
  | ok toks =>
    cases parsed : ParseState.init.run toks with
    | error e => simp [lexed, parsed, bind, Except.bind] at compiled
    | ok s => exact ⟨toks, s, rfl, parsed, by simpa [lexed, parsed, bind, Except.bind] using compiled⟩

end

/-- A compiled expression is at most `maxOps` long and its evaluation, whatever
the operands and the random draws, never pops an empty stack, visits each
instruction at most once, ends just past the last one and leaves exactly one
value, or none for the empty program, which yields NaN. -/
theorem compile_stack_safe (src : String) (ops : List Op) (compiled : compile src = .ok ops) :
    ops.length ≤ maxOps ∧ ∀ (V : Type) [F64 V] (args : Slot → V) (draws : Nat → V), ∃ visited m,
      Machine.run ops draws ops.length ⟨0, [], args, 0⟩ = some (m, visited) ∧
      visited.Pairwise (· < ·) ∧ (∀ k ∈ visited, k < ops.length) ∧ m.ip = ops.length ∧
      (ops ≠ [] → m.stack.length = 1) ∧
      (ops = [] → m.stack = [] ∧ eval ops args draws = some (F64.nan, args, 0)) := by
  obtain ⟨toks, s, -, -, finished⟩ := compile_ok compiled
  obtain ⟨-, -, short, check⟩ := finishParse_ok finished
  obtain ⟨depth, segment, shape⟩ := checkArity_ok check
  refine ⟨short, fun V _ args draws => ?_⟩
  obtain ⟨visited, m, run, stopped, final, rising⟩ :=
    checkSegment_sound 0 ops.length 0 depth (Nat.zero_le _) segment draws ⟨0, [], args, 0⟩ rfl rfl
  have looped := run.loop_eq (by simp [Machine.halted, stopped]) (by simpa using rising.length_le)
  refine ⟨visited, m, looped, rising.pairwise, fun k member => (rising.mem k member).2, stopped, ?_, ?_⟩
  · intro nonempty
    simp only [nonempty, and_false, false_or] at shape
    exact final.trans shape
  · rintro rfl
    have depth_zero : depth = 0 := by
      exact (Except.ok.inj ((checkSegment_end [] 0 0).symm.trans segment)).symm
    exact ⟨List.length_eq_zero_iff.mp (final.trans depth_zero), rfl⟩

theorem compile_stack_safe_max : compile "MAX(A,1)" = .ok [.arg 0, .lit (.decimal [49]), .max 2] ∧
    ∀ (V : Type) [F64 V] (args : Slot → V) (draws : Nat → V), ∃ visited m,
      Machine.run [.arg 0, .lit (.decimal [49]), .max 2] draws 3 ⟨0, [], args, 0⟩ = some (m, visited) ∧
      m.stack.length = 1 := by
  have compiled : compile "MAX(A,1)" = .ok [.arg 0, .lit (.decimal [49]), .max 2] := by decide +kernel
  refine ⟨compiled, fun V _ args draws => ?_⟩
  obtain ⟨visited, m, ran, -, -, -, one, -⟩ := (compile_stack_safe _ _ compiled).2 V args draws
  exact ⟨visited, m, ran, one (by simp)⟩

end Spvirit.Calc
