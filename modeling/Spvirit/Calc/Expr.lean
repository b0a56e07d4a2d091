import Spvirit.Calc.Grammar
import Spvirit.Calc.Eval

/-! CALC expression trees, their direct evaluation and their texts. -/

namespace Spvirit.Calc

/-- An expression tree. Functions are named by the operation they compile to,
the variadic ones with no count yet. -/
inductive Expr where
  | lit (v : Literal)
  | var (slot : Slot)
  | rndm
  | unary (op : Op) (e : Expr)
  | binary (op : Op) (l r : Expr)
  | call (f : Op) (args : List Expr)
  | cond (c t e : Expr)

section

variable {V : Type} [F64 V] (args : Slot → V) (draws : Nat → V)

mutual

/-- The value of an expression and the number of draws taken after it. The
branch of a conditional that is not selected computes and draws nothing. -/
def Expr.eval : Expr → Nat → V × Nat
  | .lit v, drawn => (v.value, drawn)
  | .var slot, drawn => (args slot, drawn)
  | .rndm, drawn => (draws drawn, drawn + 1)
  | .unary op e, drawn => (apply op [(e.eval drawn).1], (e.eval drawn).2)
  | .binary op l r, drawn =>
    (apply op [(l.eval drawn).1, (r.eval (l.eval drawn).2).1], (r.eval (l.eval drawn).2).2)
  | .call f es, drawn => (apply (withCount es.length f) (evalArgs es drawn).1, (evalArgs es drawn).2)
  | .cond c t e, drawn =>
    if F64.eq (c.eval drawn).1 zero then e.eval (c.eval drawn).2 else t.eval (c.eval drawn).2

def evalArgs : List Expr → Nat → List V × Nat
  | [], drawn => ([], drawn)
  | e :: es, drawn => ((e.eval drawn).1 :: (evalArgs es (e.eval drawn).2).1, (evalArgs es (e.eval drawn).2).2)

end

end

inductive Statement where
  | assign (slot : Slot) (e : Expr)
  | plain (e : Expr)

/-- Statements in order, exactly one of them a plain expression. -/
structure Calculation where
  before : List (Slot × Expr)
  plain : Expr
  after : List (Slot × Expr)

namespace Calculation

def statements (c : Calculation) : List Statement :=
  (c.before.map fun a => .assign a.1 a.2) ++ .plain c.plain :: c.after.map fun a => .assign a.1 a.2

variable {V : Type} [F64 V]

def assignAll (draws : Nat → V) : List (Slot × Expr) → (Slot → V) → Nat → (Slot → V) × Nat
  | [], args, drawn => (args, drawn)
  | (slot, e) :: rest, args, drawn =>
    assignAll draws rest (Function.update args slot (e.eval args draws drawn).1) (e.eval args draws drawn).2

/-- The value of the plain expression, the variables after all assignments and
the number of draws. -/
def eval (c : Calculation) (args : Slot → V) (draws : Nat → V) : V × (Slot → V) × Nat :=
  let before := assignAll draws c.before args 0
  let value := c.plain.eval before.1 draws before.2
  let after := assignAll draws c.after before.1 value.2
  (value.1, after.1, after.2)

end Calculation

def Token.literal : Token → Option Literal
  | .num v => some v
  | .ident name => constant name
  | _ => none

inductive Piece where
  | expr (level : Nat) (e : Expr)
  | args (es : List Expr)

/-- The token sequences of a tree where an operator of at least the given
level is wanted. Binary operators associate to the left, the conditional is
loosest and nests to the right; parentheses may be added anywhere. -/
inductive Renders : Piece → List Token → Prop
  | lit {p : Nat} {v : Literal} {t : Token} : t.literal = some v → Renders (.expr p (.lit v)) [t]
  | var {p : Nat} {slot : Slot} : Renders (.expr p (.var slot)) [.arg slot]
  | rndm {p : Nat} {name : String} : nullaryOp name = some .rndm → Renders (.expr p .rndm) [.ident name]
  | parens {p : Nat} {e : Expr} {ts : List Token} : Renders (.expr 0 e) ts →
      Renders (.expr p e) (.op .lparen :: ts ++ [.op .rparen])
  | unary {p : Nat} {op : Op} {e : Expr} {t : Token} {ts : List Token} : p ≤ (precedence op).1 →
      t.asOperand = .unary op → Renders (.expr (precedence op).1 e) ts → Renders (.expr p (.unary op e)) (t :: ts)
  | binary {p : Nat} {op : Op} {l r : Expr} {t : Token} {ls rs : List Token} : p ≤ (precedence op).1 →
      t.infixOp = some op → Renders (.expr (precedence op).1 l) ls → Renders (.expr ((precedence op).1 + 1) r) rs →
      Renders (.expr p (.binary op l r)) (ls ++ t :: rs)
  | call {p : Nat} {f : Op} {es : List Expr} {t : Token} {ts : List Token} : t.asOperand = .function f →
      takesArgs f es.length = true → Renders (.args es) ts →
      Renders (.expr p (.call f es)) (t :: .op .lparen :: ts ++ [.op .rparen])
  | cond {c t e : Expr} {cs ts es : List Token} : Renders (.expr 1 c) cs → Renders (.expr 0 t) ts →
      Renders (.expr 0 e) es →
      Renders (.expr 0 (.cond c t e)) (cs ++ .op .question :: ts ++ .op .colon :: es)
  | oneArg {e : Expr} {ts : List Token} : Renders (.expr 0 e) ts → Renders (.args [e]) ts
  | moreArgs {e : Expr} {es : List Expr} {ts us : List Token} : Renders (.expr 0 e) ts → Renders (.args es) us →
      Renders (.args (e :: es)) (ts ++ .op .comma :: us)

inductive RendersStatement : Statement → List Token → Prop
  | assign {slot : Slot} {e : Expr} {ts : List Token} : Renders (.expr 0 e) ts →
      RendersStatement (.assign slot e) (.arg slot :: .op .assign :: ts)
  | plain {e : Expr} {ts : List Token} : Renders (.expr 0 e) ts → RendersStatement (.plain e) ts

inductive RendersAll : List Statement → List Token → Prop
  | one {s : Statement} {ts : List Token} : RendersStatement s ts → RendersAll [s] ts
  | more {s : Statement} {ss : List Statement} {ts us : List Token} : RendersStatement s ts → RendersAll ss us →
      RendersAll (s :: ss) (ts ++ .op .semi :: us)

mutual

/-- The code of a tree that starts at `base`; jump targets are absolute. -/
def Expr.code (base : Nat) : Expr → List Op
  | .lit v => [.lit v]
  | .var slot => [.arg slot]
  | .rndm => [.rndm]
  | .unary op e => e.code base ++ [op]
  | .binary op l r => l.code base ++ r.code (base + (l.code base).length) ++ [op]
  | .call f es => codeArgs base es ++ [withCount es.length f]
  | .cond c t e =>
    let test := c.code base
    let thenBranch := t.code (base + test.length + 1)
    let elseIdx := base + test.length + 1 + thenBranch.length
    let elseBranch := e.code (elseIdx + 1)
    test ++ [.condIf (elseIdx + 1)] ++ thenBranch ++ [.condElse (elseIdx + 1 + elseBranch.length + 1)] ++ elseBranch ++
      [.condEnd]

def codeArgs (base : Nat) : List Expr → List Op
  | [] => []
  | e :: es => e.code base ++ codeArgs (base + (e.code base).length) es

end

def Statement.code (base : Nat) : Statement → List Op
  | .assign slot e => e.code base ++ [.store slot]
  | .plain e => e.code base

def codeAll (base : Nat) : List Statement → List Op
  | [] => []
  | s :: ss => s.code base ++ codeAll (base + (s.code base).length) ss

end Spvirit.Calc
