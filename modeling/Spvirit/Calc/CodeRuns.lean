import Spvirit.Calc.StackSafety
import Spvirit.Calc.Codegen

/-! The code of a tree passes the arity check and computes the tree's value. -/

namespace Spvirit.Calc

open Trace

/-- A program holds some code at a position. -/
def CodeAt (ops : List Op) (base : Nat) (code : List Op) : Prop :=
  ∃ before after, ops = before ++ code ++ after ∧ before.length = base

namespace CodeAt

variable {ops first second : List Op} {base : Nat} {op : Op}

theorem left (code : CodeAt ops base (first ++ second)) : CodeAt ops base first := by
  obtain ⟨before, after, rfl, start⟩ := code
  exact ⟨before, second ++ after, by simp, start⟩

theorem right (code : CodeAt ops base (first ++ second)) : CodeAt ops (base + first.length) second := by
  obtain ⟨before, after, rfl, rfl⟩ := code
  exact ⟨before ++ first, after, by simp, by simp⟩

theorem here (code : CodeAt ops base [op]) : ops[base]? = some op := by
  obtain ⟨before, after, rfl, rfl⟩ := code
  simp

theorem fits (code : CodeAt ops base first) : base + first.length ≤ ops.length := by
  obtain ⟨before, after, rfl, rfl⟩ := code
  simp

end CodeAt

namespace Piece

def code (base : Nat) : Piece → List Op
  | .expr _ e => e.code base
  | .args es => codeArgs base es

/-- How many values a piece leaves. -/
def width : Piece → Nat
  | .expr _ _ => 1
  | .args es => es.length

def eval {V : Type} [F64 V] (args : Slot → V) (draws : Nat → V) (drawn : Nat) : Piece → List V × Nat
  | .expr _ e => ([(e.eval args draws drawn).1], (e.eval args draws drawn).2)
  | .args es => evalArgs args draws es drawn

end Piece

/-- The operations that pop `n` operands for one value. -/
def Op.Takes (op : Op) (n : Nat) : Prop := op.isPlain = true ∧ arity op = n ∧ 1 ≤ n

variable {op : Op} {ops : List Op}

theorem Token.unary_takes {t : Token} (unary : t.asOperand = .unary op) : op.Takes 1 := by
  have prec := Token.unary_precedence unary
  cases op <;> simp_all [precedence, Op.Takes, Op.isPlain, arity]

theorem Token.infix_takes {t : Token} (binary : t.infixOp = some op) : op.Takes 2 := by
  have range : 1 ≤ (precedence op).1 ∧ (precedence op).1 ≤ 6 := by
    obtain ⟨level, prec, bounds⟩ := Token.infix_precedence binary
    simpa [prec] using bounds
  cases op <;> simp_all [precedence, Op.Takes, Op.isPlain, arity]

theorem identToOp_precedence {name : String} {f : Op} (found : identToOp name = .ok f) :
    precedence f = (13, .right) := by
  unfold identToOp at found
  split at found <;> cases found <;> rfl

theorem Token.function_takes {t : Token} {f : Op} {n : Nat} (function : t.asOperand = .function f)
    (takes : takesArgs f n = true) : (withCount n f).Takes n := by
  have prec : precedence f = (13, .right) := by
    cases t with
    | ident name =>
      simp only [asOperand] at function
      repeat' split at function
      all_goals cases function
      next found => exact identToOp_precedence found
    | op sym => cases sym <;> simp [asOperand, toOp] at function
    | _ => simp [asOperand] at function
  cases f <;> simp_all [precedence, withCount, takesArgs, Op.Takes, Op.isPlain, arity]
  all_goals
    have count := of_decide_eq_true takes
    omega

theorem checkSegment_plain {i stop depth n : Nat} (inside : i < stop)
    (here : ops[i]? = some op) (takes : op.Takes n) :
    checkSegment ops i stop (depth + n) = checkSegment ops (i + 1) stop (depth + 1) := by
  obtain ⟨plain, pops, positive⟩ := takes
  rw [checkSegment, dif_pos inside, here]
  cases op <;> simp_all [Op.isPlain]

theorem checkSegment_operand {i stop depth : Nat} (inside : i < stop)
    (here : ops[i]? = some op) (pushes : op.isPlain = true ∧ arity op = 0) :
    checkSegment ops i stop depth = checkSegment ops (i + 1) stop (depth + 1) := by
  rw [checkSegment, dif_pos inside, here]
  cases op <;> simp_all [Op.isPlain]

/-- A conditional whose branches each leave one value passes the check. -/
theorem checkSegment_layout {i elseIdx endIdx stop depth : Nat} (layout : CondLayout ops i elseIdx endIdx)
    (inside : endIdx < stop) (thenCheck : checkSegment ops (i + 1) elseIdx depth = .ok (depth + 1))
    (elseCheck : checkSegment ops (elseIdx + 1) endIdx depth = .ok (depth + 1)) :
    checkSegment ops i stop (depth + 1) = checkSegment ops (endIdx + 1) stop (depth + 1) := by
  have := layout.then_lt
  have := layout.else_lt
  rw [checkSegment, dif_pos (by omega), layout.test]
  simp only [Nat.add_sub_cancel, layout.jump, layout.mark]
  rw [if_neg (by omega), dif_neg (by omega), dif_neg (by omega)]
  simp [thenCheck, elseCheck, bind, Except.bind]

/-- Where the parts of a conditional stand. -/
theorem Expr.code_cond {base : Nat} {c t e : Expr} (code : CodeAt ops base ((Expr.cond c t e).code base)) :
    let test := c.code base
    let thenBranch := t.code (base + test.length + 1)
    let elseIdx := base + test.length + 1 + thenBranch.length
    let elseBranch := e.code (elseIdx + 1)
    CondLayout ops (base + test.length) elseIdx (elseIdx + 1 + elseBranch.length) ∧ CodeAt ops base test ∧
      CodeAt ops (base + test.length + 1) thenBranch ∧ CodeAt ops (elseIdx + 1) elseBranch ∧
      base + ((Expr.cond c t e).code base).length = elseIdx + 1 + elseBranch.length + 1 := by
  simp only [Expr.code] at code ⊢
  have testCode := code.left.left.left.left.left
  have test := code.left.left.left.left.right.here
  have thenCode := code.left.left.left.right
  have jump := code.left.left.right.here
  have elseCode := code.left.right
  have mark := code.right.here
  simp only [List.length_append, List.length_singleton, ← add_assoc] at test thenCode jump elseCode mark
  refine ⟨⟨test, jump, mark, by omega, by omega⟩, testCode, thenCode, elseCode, ?_⟩
  simp only [List.length_append, List.length_singleton]
  omega

theorem Renders.checks {piece : Piece} {ts : List Token} (rendered : Renders piece ts) {base : Nat}
    (code : CodeAt ops base (piece.code base)) (stop depth : Nat) (fits : base + (piece.code base).length ≤ stop) :
    checkSegment ops base stop depth =
      checkSegment ops (base + (piece.code base).length) stop (depth + piece.width) := by
  induction rendered generalizing base stop depth with
  | lit | var | rndm => exact checkSegment_operand (by simpa [Piece.code, Expr.code] using fits) code.here ⟨rfl, rfl⟩
  | parens _ ih => exact ih code stop depth fits
  | @unary p op e t ts _ unary _ ih =>
    simp only [Piece.code, Expr.code, List.length_append, List.length_singleton, Piece.width] at code fits ih ⊢
    rw [ih code.left stop depth (by omega)]
    exact checkSegment_plain (by omega) code.right.here (Token.unary_takes unary)
  | @binary p op l r t ls rs _ binary _ _ ihl ihr =>
    simp only [Piece.code, Expr.code, List.length_append, List.length_singleton, Piece.width] at code fits ihl ihr ⊢
    rw [ihl code.left.left stop depth (by omega), ihr code.left.right stop _ (by omega)]
    have here := code.right.here
    simp only [List.length_append, ← add_assoc] at here ⊢
    exact checkSegment_plain (by omega) here (Token.infix_takes binary)
  | @call p f es t ts function takes _ ih =>
    simp only [Piece.code, Expr.code, List.length_append, List.length_singleton, Piece.width] at code fits ih ⊢
    rw [ih code.left stop depth (by omega)]
    exact checkSegment_plain (by omega) code.right.here (Token.function_takes function takes)
  | @cond c t e cs ts es _ _ _ ihc iht ihe =>
    obtain ⟨layout, testCode, thenCode, elseCode, total⟩ := Expr.code_cond code
    simp only [Piece.code, Piece.width] at fits ihc iht ihe ⊢
    have thenCheck := (iht thenCode _ depth le_rfl).trans (checkSegment_end _ _ _)
    have elseCheck := (ihe elseCode _ depth le_rfl).trans (checkSegment_end _ _ _)
    rw [ihc testCode stop depth (by omega), total]
    exact checkSegment_layout layout (by omega) thenCheck elseCheck
  | oneArg _ ih =>
    simp only [Piece.code, codeArgs, List.append_nil, Piece.width, List.length_singleton] at code fits ih ⊢
    exact ih code stop depth fits
  | @moreArgs e es ts us _ _ ih ihs =>
    simp only [Piece.code, codeArgs, List.length_append, Piece.width, List.length_cons] at code fits ih ihs ⊢
    rw [ih code.left stop depth (by omega), ihs code.right stop _ (by omega)]
    simp only [add_assoc, add_comm 1]

section

variable {V : Type} [F64 V] {draws : Nat → V} {ops : List Op}

/-- The program leads from one machine to another, forward only. -/
def Machine.Lands (draws : Nat → V) (ops : List Op) (m m' : Machine V) : Prop :=
  ∃ visited, Machine.Runs draws ops m visited m' ∧ Rising m.ip m'.ip visited

theorem Machine.Lands.trans {m₁ m₂ m₃ : Machine V} (first : Lands draws ops m₁ m₂) (second : Lands draws ops m₂ m₃) :
    Lands draws ops m₁ m₃ := by
  obtain ⟨before, run, rising⟩ := first
  obtain ⟨visited, run', rising'⟩ := second
  exact ⟨_, run.trans run', rising.append rising'⟩

theorem Machine.lands_single {op : Op} {m m' : Machine V} (here : ops[m.ip]? = some op)
    (next : m.exec draws op = some m') (forward : m.ip < m'.ip) : Lands draws ops m m' :=
  ⟨[m.ip], runs_single here next, .cons le_rfl (.nil forward)⟩

theorem Machine.exec_takes {op : Op} {m : Machine V} {stack : List V} (operands : List V) (takes : op.Takes operands.length)
    (top : m.stack = operands.reverse ++ stack) :
    m.exec draws op = some { m with ip := m.ip + 1, stack := apply op operands :: stack } := by
  obtain ⟨plain, pops, positive⟩ := takes
  have enough : ¬ m.stack.length < arity op := by simp [top, pops]
  have operandsEq : (m.stack.take (arity op)).reverse = operands := by
    rw [top, pops, List.take_left' (by simp), List.reverse_reverse]
  have stackEq : m.stack.drop (arity op) = stack := by rw [top, pops, List.drop_left' (by simp)]
  have generic : m.exec draws op = if m.stack.length < arity op then none
      else some ({ m with stack := m.stack.drop (arity op) }.push (apply op (m.stack.take (arity op)).reverse)) := by
    cases op <;> first | rfl | (simp only [arity] at pops; omega) | simp [Op.isPlain] at plain
  rw [generic, if_neg enough, operandsEq, stackEq]
  rfl

theorem evalArgs_length (args : Slot → V) (draws : Nat → V) (es : List Expr) (drawn : Nat) :
    (evalArgs args draws es drawn).1.length = es.length := by
  induction es generalizing drawn with
  | nil => simp [evalArgs]
  | cons e es ih => simp [evalArgs, ih]

/-- Running the code of a piece pushes its values, first first, and takes its draws. -/
theorem Renders.lands {piece : Piece} {ts : List Token} (rendered : Renders piece ts) {base : Nat}
    (code : CodeAt ops base (piece.code base)) (stack : List V) (args : Slot → V) (drawn : Nat) :
    Machine.Lands draws ops ⟨base, stack, args, drawn⟩
      ⟨base + (piece.code base).length, (piece.eval args draws drawn).1.reverse ++ stack, args,
        (piece.eval args draws drawn).2⟩ := by
  induction rendered generalizing base stack drawn with
  | lit | var | rndm => exact Machine.lands_single code.here rfl (Nat.lt_succ_self _)
  | parens _ ih => exact ih code stack drawn
  | @unary p op e t ts _ unary _ ih =>
    simp only [Piece.code, Expr.code, List.length_append, List.length_singleton, Piece.eval, Expr.eval] at code ih ⊢
    refine (ih code.left stack drawn).trans (Machine.lands_single code.right.here ?_ (by simp only; omega))
    exact Machine.exec_takes [_] (Token.unary_takes unary) rfl
  | @binary p op l r t ls rs _ binary _ _ ihl ihr =>
    simp only [Piece.code, Expr.code, List.length_append, List.length_singleton, Piece.eval, Expr.eval] at code ihl ihr ⊢
    have here := code.right.here
    simp only [List.length_append, ← add_assoc] at here ⊢
    refine ((ihl code.left.left stack drawn).trans (ihr code.left.right _ _)).trans
      (Machine.lands_single here ?_ (by simp only; omega))
    exact Machine.exec_takes [_, _] (Token.infix_takes binary) rfl
  | @call p f es t ts function takes _ ih =>
    simp only [Piece.code, Expr.code, List.length_append, List.length_singleton, Piece.eval, Expr.eval] at code ih ⊢
    refine (ih code.left stack drawn).trans (Machine.lands_single code.right.here ?_ (by simp only; omega))
    have operands : (withCount es.length f).Takes (evalArgs args draws es drawn).1.length := by
      rw [evalArgs_length]
      exact Token.function_takes function takes
    exact Machine.exec_takes _ operands rfl
  | @cond c t e cs ts es _ _ _ ihc iht ihe =>
    obtain ⟨layout, testCode, thenCode, elseCode, total⟩ := Expr.code_cond code
    simp only [Piece.code, Piece.eval] at ihc iht ihe ⊢
    have ordered := layout.then_lt
    have ordered' := layout.else_lt
    rw [total, Expr.eval]
    refine (ihc testCode stack drawn).trans ?_
    by_cases zeroCond : F64.eq (c.eval args draws drawn).1 zero = true
    · rw [if_pos zeroCond]
      refine (Machine.lands_single layout.test ?_ ?_).trans ((ihe elseCode stack _).trans
        (Machine.lands_single layout.mark rfl (Nat.lt_succ_self _)))
      · simp [Machine.exec, zeroCond]
      · simp only
        omega
    · rw [if_neg zeroCond]
      refine (Machine.lands_single layout.test ?_ ?_).trans ((iht thenCode stack _).trans
        (Machine.lands_single layout.jump rfl (by simp only; omega)))
      · simp [Machine.exec, zeroCond]
      · simp only
        omega
  | oneArg _ ih =>
    simp only [Piece.code, codeArgs, List.append_nil, Piece.eval, evalArgs] at code ih ⊢
    exact ih code stack drawn
  | @moreArgs e es ts us _ _ ih ihs =>
    simp only [Piece.code, codeArgs, List.length_append, Piece.eval, evalArgs] at code ih ihs ⊢
    have rest := (ih code.left stack drawn).trans (ihs code.right _ _)
    simpa [add_assoc] using rest

end

end Spvirit.Calc
