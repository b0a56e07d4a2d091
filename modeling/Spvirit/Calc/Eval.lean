import Spvirit.Calc.Op
import Spvirit.Foundation.Trace

/-! Evaluation of compiled CALC expressions on a value stack. -/

namespace Spvirit.Calc

/-- The double arithmetic the evaluator is written against. -/
class F64 (V : Type) where
  parse : List UInt8 → V
  ofI32 : Int32 → V
  ofU32 : UInt32 → V
  asI32 : V → Int32
  asU32 : V → UInt32
  infinity : V
  negInfinity : V
  nan : V
  pi : V
  half : V
  neg : V → V
  abs : V → V
  sqrt : V → V
  exp : V → V
  log10 : V → V
  ln : V → V
  ceil : V → V
  floor : V → V
  sin : V → V
  cos : V → V
  tan : V → V
  asin : V → V
  acos : V → V
  atan : V → V
  sinh : V → V
  cosh : V → V
  tanh : V → V
  add : V → V → V
  sub : V → V → V
  mul : V → V → V
  div : V → V → V
  rem : V → V → V
  powf : V → V → V
  atan2 : V → V → V
  min : V → V → V
  max : V → V → V
  eq : V → V → Bool
  lt : V → V → Bool
  le : V → V → Bool
  isNan : V → Bool
  isInfinite : V → Bool
  isFinite : V → Bool

section

variable {V : Type} [F64 V]

open Spvirit.Calc.F64

def zero : V := ofI32 0
def one : V := ofI32 1
def ofBool (b : Bool) : V := if b then one else zero

/-- Bit 31 of a hexadecimal literal is its sign. -/
def Literal.value : Literal → V
  | .decimal text => parse text
  | .hex bits => ofI32 bits.toInt32
  | .pi => F64.pi
  | .d2r => div F64.pi (ofI32 180)
  | .r2d => div (ofI32 180) F64.pi
  | .inf => infinity
  | .nan => F64.nan

/-- Negative values convert through the signed type, the others through the unsigned one. -/
def d2i (x : V) : Int32 := if lt x (zero : V) then asI32 x else (asU32 x).toInt32
def d2ui (x : V) : UInt32 := if lt x (zero : V) then (asI32 x).toUInt32 else asU32 x

/-- The result of an operation on its operands, first pushed first. -/
def apply : Op → List V → V
  | .neg, [a] => neg a
  | .add, [a, b] => add a b
  | .sub, [a, b] => sub a b
  | .mul, [a, b] => mul a b
  | .div, [a, b] => div a b
  | .modulo, [a, b] => if asI32 b = 0 then F64.nan else ofI32 (asI32 a % asI32 b)
  | .pow, [a, b] => powf a b
  | .abs, [a] => abs a
  | .sqrt, [a] => sqrt a
  | .exp, [a] => exp a
  | .log10, [a] => log10 a
  | .ln, [a] => ln a
  | .ceil, [a] => ceil a
  | .floor, [a] => floor a
  | .nint, [a] => ofI32 (asI32 (if le (zero : V) a then add a half else sub a half))
  | .sin, [a] => sin a
  | .cos, [a] => cos a
  | .tan, [a] => tan a
  | .asin, [a] => asin a
  | .acos, [a] => acos a
  | .atan, [a] => atan a
  | .atan2, [a, b] => atan2 b a
  | .fmod, [a, b] => rem a b
  | .sinh, [a] => sinh a
  | .cosh, [a] => cosh a
  | .tanh, [a] => tanh a
  | .min _, operands => if operands.any isNan then F64.nan else operands.foldl F64.min infinity
  | .max _, operands => if operands.any isNan then F64.nan else operands.foldl F64.max negInfinity
  | .isInf, [a] => ofBool (isInfinite a)
  | .isNan _, operands => ofBool (operands.any F64.isNan)
  | .finite _, operands => ofBool (operands.all isFinite)
  | .gt, [a, b] => ofBool (lt b a)
  | .ge, [a, b] => ofBool (le b a)
  | .lt, [a, b] => ofBool (lt a b)
  | .le, [a, b] => ofBool (le a b)
  | .eq, [a, b] => ofBool (eq a b)
  | .ne, [a, b] => ofBool (!eq a b)
  | .andL, [a, b] => ofBool (!eq a zero && !eq b zero)
  | .orL, [a, b] => ofBool (!eq a zero || !eq b zero)
  | .notL, [a] => ofBool (eq a zero)
  | .andB, [a, b] => ofI32 (d2i a &&& d2i b)
  | .orB, [a, b] => ofI32 (d2i a ||| d2i b)
  | .xorB, [a, b] => ofI32 (d2i a ^^^ d2i b)
  | .notB, [a] => ofI32 (~~~ d2i a)
  | .shl, [a, b] => ofI32 (d2i a <<< (d2i b &&& 31))
  | .shr, [a, b] => ofI32 (d2i a >>> (d2i b &&& 31))
  | .shrLogic, [a, b] => ofU32 (d2ui a >>> (d2ui b &&& 31))
  | _, _ => F64.nan

end

/-- The evaluator's loop state; `drawn` counts the random draws taken. The top
of the value stack is its head. -/
structure Machine (V : Type) where
  ip : Nat
  stack : List V
  args : Slot → V
  drawn : Nat

namespace Machine

variable {V : Type} [F64 V]

def push (m : Machine V) (v : V) : Machine V := { m with ip := m.ip + 1, stack := v :: m.stack }

/-- One instruction; `none` is a pop on an empty stack. -/
def exec (draws : Nat → V) (op : Op) (m : Machine V) : Option (Machine V) :=
  match op with
  | .arg slot => some (m.push (m.args slot))
  | .lit v => some (m.push v.value)
  | .rndm => some { m.push (draws m.drawn) with drawn := m.drawn + 1 }
  | .condIf elseTarget =>
    match m.stack with
    | [] => none
    | cond :: stack =>
      some { m with ip := if F64.eq cond zero then elseTarget else m.ip + 1, stack := stack }
  | .condElse endTarget => some { m with ip := endTarget }
  | .condEnd => some { m with ip := m.ip + 1 }
  | .store slot =>
    match m.stack with
    | [] => none
    | v :: stack => some { m with ip := m.ip + 1, stack := stack, args := Function.update m.args slot v }
  | op =>
    if m.stack.length < arity op then none
    else
      some ({ m with stack := m.stack.drop (arity op) }.push (apply op (m.stack.take (arity op)).reverse))

def step (ops : List Op) (draws : Nat → V) (m : Machine V) : Option (Machine V) :=
  ops[m.ip]?.bind fun op => m.exec draws op

def halted (ops : List Op) (m : Machine V) : Bool := ops.length ≤ m.ip

/-- The loop of the evaluator, with the instructions it visits in order. -/
def run (ops : List Op) (draws : Nat → V) (fuel : Nat) (m : Machine V) : Option (Machine V × List Nat) :=
  Trace.loop (halted ops) ip (step ops draws) fuel m

end Machine

section

variable {V : Type} [F64 V]

/-- The value and the operands left by a program, and the draws it took. A
program as long as its fuel can visit every instruction once. -/
def eval (ops : List Op) (args : Slot → V) (draws : Nat → V) : Option (V × (Slot → V) × Nat) :=
  (Machine.run ops draws ops.length ⟨0, [], args, 0⟩).map fun (m, _) => (m.stack.headD F64.nan, m.args, m.drawn)

end

end Spvirit.Calc
