import Mathlib.Tactic

/-! The instruction set of compiled CALC expressions. -/

namespace Spvirit.Calc

/-- An operand `A`-`U`. -/
abbrev Slot := Fin 21

/-- A number of the source text, kept as it was written; an evaluation reads
its double off it. `decimal` is the text handed to the float parser, `hex` the
bits of a hexadecimal literal, the others are the named constants. -/
inductive Literal where
  | decimal (text : List UInt8)
  | hex (bits : UInt32)
  | pi
  | d2r
  | r2d
  | inf
  | nan
  deriving DecidableEq, Repr

/-- Positions and jump targets are absolute indices into the program. -/
inductive Op where
  | arg (slot : Slot)
  | lit (value : Literal)
  | add
  | sub
  | mul
  | div
  | modulo
  | pow
  | neg
  | condIf (elseTarget : Nat)
  | condElse (endTarget : Nat)
  | condEnd
  | abs
  | sqrt
  | exp
  | log10
  | ln
  | ceil
  | floor
  | nint
  | sin
  | cos
  | tan
  | asin
  | acos
  | atan
  | atan2
  | fmod
  | sinh
  | cosh
  | tanh
  | min (count : Nat)
  | max (count : Nat)
  | gt
  | ge
  | lt
  | le
  | eq
  | ne
  | andL
  | orL
  | notL
  | andB
  | orB
  | xorB
  | notB
  | shl
  | shr
  | shrLogic
  | rndm
  | isInf
  | isNan (count : Nat)
  | finite (count : Nat)
  | store (slot : Slot)
  deriving DecidableEq, Repr

inductive Assoc where
  | left
  | right
  deriving DecidableEq, Repr

/-- Binding power and associativity; higher binds tighter. -/
def precedence : Op → Nat × Assoc
  | .condIf _ | .condElse _ | .condEnd => (0, .right)
  | .orL | .orB | .xorB => (1, .left)
  | .andL | .andB | .shl | .shr | .shrLogic => (2, .left)
  | .gt | .ge | .lt | .le | .eq | .ne => (3, .left)
  | .add | .sub => (4, .left)
  | .mul | .div | .modulo => (5, .left)
  | .pow => (6, .left)
  | .neg | .notL | .notB => (7, .right)
  | .store _ => (0, .left)
  | .arg _ | .lit _ | .rndm => (0, .left)
  | .abs | .sqrt | .exp | .log10 | .ln | .ceil | .floor | .nint | .sin | .cos | .tan | .asin | .acos | .atan
  | .atan2 | .fmod | .sinh | .cosh | .tanh | .min _ | .max _ | .isInf | .isNan _ | .finite _ => (13, .right)

/-- Number of operands each operation pops. -/
def arity : Op → Nat
  | .arg _ | .lit _ | .rndm => 0
  | .neg | .abs | .sqrt | .exp | .log10 | .ln | .ceil | .floor | .nint | .sin | .cos | .tan | .asin | .acos | .atan
  | .sinh | .cosh | .tanh | .notL | .notB | .isInf => 1
  | .add | .sub | .mul | .div | .modulo | .pow | .atan2 | .fmod | .gt | .ge | .lt | .le | .eq | .ne | .andL | .orL
  | .andB | .orB | .xorB | .shl | .shr | .shrLogic => 2
  | .condIf _ => 1
  | .condElse _ | .condEnd => 0
  | .store _ => 1
  | .min n | .max n | .isNan n | .finite n => n

inductive CalcError where
  | badChar (c : UInt8) (offset : Nat)
  | badNumber (offset : Nat)
  | unknownIdent (name : String)
  | missingOperand
  | extraOperand
  | unbalanced
  | badConditional
  | badAssignment
  | tooLong
  deriving DecidableEq, Repr

end Spvirit.Calc
