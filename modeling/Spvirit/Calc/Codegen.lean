import Spvirit.Calc.Expr
import Spvirit.Calc.Scan

/-! The compiler emits the code of the tree its tokens were rendered from. -/

namespace Spvirit.Calc

/-- Operators and conditionals that wait for the end of the expression; above
level 0 only operators of at least that level wait. -/
def Waits (level : Nat) : Frame → Prop
  | .op op => level ≤ (precedence op).1 ∧ ∀ slot, op ≠ .store slot
  | .condTail _ _ => level = 0
  | _ => False

/-- The waiting frames above a stack will turn the output into the given code. -/
structure Settles (level : Nat) (waiting : List Frame) (out code : List Op) : Prop where
  waits : ∀ f ∈ waiting, Waits level f
  flushed : unwind waiting out = ([], code)
  short : out.length ≤ code.length

/-- Nothing on the stack binds the operand of an operator of the given level. -/
structure Blocks (level : Nat) (stack : List Frame) : Prop where
  noFunc : ∀ f rest, stack ≠ .func f :: rest
  binds : ∀ op rest, stack = .op op :: rest →
    (precedence op).1 ≤ 7 ∧ ((precedence op).1 < max level 1 ∨ 7 ≤ level)

theorem waiting_induction {level : Nat} {P : List Frame → Prop} (nil : P [])
    (op : ∀ top rest, Waits level (.op top) → P rest → P (.op top :: rest))
    (tail : ∀ i j rest, level = 0 → P rest → P (.condTail i j :: rest)) {waiting : List Frame}
    (waits : ∀ f ∈ waiting, Waits level f) : P waiting := by
  induction waiting with
  | nil => exact nil
  | cons frame rest ih =>
    obtain ⟨first, later⟩ := List.forall_mem_cons.mp waits
    cases frame with
    | op top => exact op top rest first (ih later)
    | condTail i j => exact tail i j rest first (ih later)
    | paren | condHead _ => exact first.elim
    | func f => exact first.elim

section

variable {level : Nat} {waiting : List Frame} (waits : ∀ f ∈ waiting, Waits level f) (stack : List Frame) (out : List Op)

include waits

theorem unwind_waiting : unwind (waiting ++ stack) out = unwind stack (unwind waiting out).2 :=
  waiting_induction (P := fun waiting => ∀ out, unwind (waiting ++ stack) out = unwind stack (unwind waiting out).2)
    (fun _ => rfl) (fun _ _ _ later _ => later _) (fun _ _ _ _ later _ => later _) waits out

theorem unwindColon_waiting (held : List Op) :
    unwindColon (waiting ++ stack) out held = unwindColon stack (unwind waiting out).2 held := by
  refine waiting_induction (P := fun waiting => ∀ out, unwindColon (waiting ++ stack) out held
    = unwindColon stack (unwind waiting out).2 held) (fun _ => rfl) (fun top rest first later out => ?_)
    (fun _ _ _ _ later _ => later _) waits out
  have pop : unwindColon (.op top :: (rest ++ stack)) out held = unwindColon (rest ++ stack) (out ++ [top]) held := by
    cases top <;> first | rfl | exact absurd rfl (first.2 _)
  simpa [unwind, pop] using later (out ++ [top])

/-- An operator pops everything that waits at its level or above. -/
theorem popWhile_waiting {prec : Nat} {assoc : Assoc} (positive : 0 < level)
    (pops : ∀ op : Op, level ≤ (precedence op).1 → shouldPop op prec assoc = true) :
    popWhile (waiting ++ stack) out prec assoc = popWhile stack (unwind waiting out).2 prec assoc := by
  refine waiting_induction (P := fun waiting => ∀ out, popWhile (waiting ++ stack) out prec assoc
    = popWhile stack (unwind waiting out).2 prec assoc) (fun _ => rfl) (fun top rest first later out => ?_)
    (fun _ _ _ bottom _ _ => absurd bottom (by omega)) waits out
  simpa [popWhile, pops top first.1, unwind] using later (out ++ [top])

end

/-- An operator leaves a stack alone whose top binds less tightly. -/
theorem popWhile_stays {stack : List Frame} {prec : Nat} {assoc : Assoc}
    (stays : ∀ op rest, stack = .op op :: rest → shouldPop op prec assoc = false) (out : List Op) :
    popWhile stack out prec assoc = (stack, out) := by
  cases stack with
  | nil => rfl
  | cons frame rest => cases frame <;> simp_all [popWhile]

theorem Token.unary_precedence {t : Token} {op : Op} (unary : t.asOperand = .unary op) :
    precedence op = (7, .right) := by
  cases t with
  | arg _ | num _ => simp [asOperand] at unary
  | ident name =>
    simp only [asOperand] at unary
    repeat' split at unary
    all_goals cases unary
    next negates => rw [negates]; rfl
  | op sym => cases sym <;> simp [asOperand, toOp] at unary <;> subst unary <;> rfl

theorem wordOperator_binary {name : String} {op : Op} (word : wordOperator name = some op) (infixed : op ≠ .notB) :
    ∃ level, precedence op = (level, .left) ∧ 1 ≤ level ∧ level ≤ 6 := by
  unfold wordOperator at word
  split at word <;> cases word <;> first | exact ⟨_, rfl, by decide, by decide⟩ | exact absurd rfl infixed

theorem Token.infix_precedence {t : Token} {op : Op} (binary : t.infixOp = some op) :
    ∃ level, precedence op = (level, .left) ∧ 1 ≤ level ∧ level ≤ 6 := by
  cases t with
  | arg _ | num _ => simp [infixOp] at binary
  | ident name =>
    obtain ⟨word, infixed⟩ := Option.filter_eq_some_iff.mp binary
    exact wordOperator_binary word (by simpa using infixed)
  | op sym =>
    cases sym <;> simp [infixOp, toOp, Except.toOption] at binary <;> subst binary <;>
      exact ⟨_, rfl, by decide, by decide⟩

namespace ParseState

variable {s s' : ParseState} {t : Token}

theorem token_literal {v : Literal} (expects : s.expectOperand = true) (literal : t.literal = some v) :
    s.token t = .ok (s.pushOperand (.lit v)) := by
  cases t with
  | arg _ | op _ => simp [Token.literal] at literal
  | num w =>
    cases literal
    rfl
  | ident name =>
    have named : constant name = some v := literal
    simp [token, ident, named, expects]

theorem token_rndm {name : String} (expects : s.expectOperand = true) (nullary : nullaryOp name = some .rndm) :
    s.token (.ident name) = .ok (s.pushOperand .rndm) := by
  have unnamed : constant name = none := by
    unfold nullaryOp at nullary
    split at nullary
    · rfl
    · contradiction
  simp [token, ident, unnamed, nullary, expects]

theorem token_unary {op : Op} (expects : s.expectOperand = true) (unary : t.asOperand = .unary op) :
    s.token t = .ok (s.pushOperator op) := by
  cases t with
  | arg _ | num _ => simp [Token.asOperand] at unary
  | ident name =>
    simp only [Token.asOperand] at unary
    split at unary
    · contradiction
    · next unnamed =>
      simp only [not_or, Bool.not_eq_true, Option.isSome_eq_false_iff, Option.isNone_iff_eq_none] at unnamed
      split at unary
      · next word found =>
        split at unary
        · next negates =>
          cases unary
          simp [token, ident, unnamed, found, negates, expects]
        · contradiction
      · split at unary <;> contradiction
  | op sym =>
    cases sym <;> simp [Token.asOperand, toOp] at unary <;> subst unary <;>
      simp [token, toOp, expects, bind, Except.bind]

theorem token_binary {op : Op} (expects : s.expectOperand = false) (binary : t.infixOp = some op) :
    s.token t = .ok (s.pushOperator op) := by
  cases t with
  | arg _ | num _ => simp [Token.infixOp] at binary
  | ident name =>
    obtain ⟨word, infixed⟩ := Option.filter_eq_some_iff.mp binary
    have others := wordOperator_only word
    simp [token, ident, others, word, expects, of_decide_eq_true infixed]
  | op sym =>
    cases sym <;> simp [Token.infixOp, toOp, Except.toOption] at binary <;> subst binary <;>
      simp [token, toOp, expects, bind, Except.bind]

theorem token_function {f : Op} (expects : s.expectOperand = true) (function : t.asOperand = .function f) :
    s.token t = .ok { s with stack := .func f :: s.stack, expectOperand := true } := by
  cases t with
  | arg _ | num _ => simp [Token.asOperand] at function
  | ident name =>
    simp only [Token.asOperand] at function
    split at function
    · contradiction
    · next unnamed =>
      simp only [not_or, Bool.not_eq_true, Option.isSome_eq_false_iff, Option.isNone_iff_eq_none] at unnamed
      split at function
      · split at function <;> contradiction
      · next noWord =>
        split at function <;> cases function
        next found => simp [token, ident, unnamed, noWord, found, expects, bind, Except.bind]
  | op sym => cases sym <;> simp [Token.asOperand, toOp] at function

theorem openParen_group (plain : ∀ f rest, s.stack ≠ .func f :: rest) :
    s.token (.op .lparen) = .ok { s with stack := .paren :: s.stack, expectOperand := true } := by
  simp only [token, openParen]

theorem closeParen_group {stack : List Frame} {out : List Op} (flushed : unwind s.stack s.out = (.paren :: stack, out))
    (plain : ∀ f rest, stack ≠ .func f :: rest) :
    s.token (.op .rparen) = .ok { s with stack := stack, out := out, expectOperand := false } := by
  simp only [token, closeParen, flushed]

theorem closeParen_call {stack : List Frame} {out : List Op} {f : Op} {commas start : Nat} {counts starts : List Nat}
    (flushed : unwind s.stack s.out = (.paren :: .func f :: stack, out)) (called : s.argCounts = commas :: counts)
    (opened : s.callStarts = start :: starts) (nonempty : out.length ≠ start) :
    s.token (.op .rparen) = .ok ⟨out ++ [withCount (commas + 1) f], stack, false, counts, starts⟩ := by
  simp [token, closeParen, flushed, called, opened, nonempty]

theorem run_append (s : ParseState) (ts us : List Token) :
    s.run (ts ++ us) = (s.run ts).bind fun s' => s'.run us := by
  induction ts generalizing s with
  | nil => rfl
  | cons t ts ih =>
    cases next : s.step t with
    | error e => simp [run, next, bind, Except.bind]
    | ok s' => simpa [run, next, bind, Except.bind] using ih s'

theorem run_token (passed : s.token t = .ok s') (short : s'.out.length ≤ maxOps) (ts : List Token) :
    s.run (t :: ts) = s'.run ts := by
  simp [run, step, passed, bind, Except.bind, Nat.not_lt.mpr short]

end ParseState

end Spvirit.Calc
