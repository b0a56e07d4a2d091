import Spvirit.Calc.Parse

/-! The grammar of CALC expressions over tokens, and the checks that the compiler itself does not make. -/

namespace Spvirit.Calc

inductive OperandToken where
  | atom
  | function (op : Op)
  | unary (op : Op)
  | other
  deriving DecidableEq, Repr

def Token.asOperand : Token → OperandToken
  | .arg _ | .num _ => .atom
  | .ident name =>
    if (constant name).isSome ∨ (nullaryOp name).isSome then .atom
    else
      match wordOperator name with
      | some word => if word = .notB then .unary word else .other
      | none =>
        match identToOp name with
        | .ok f => .function f
        | .error _ => .other
  | .op sym =>
    match toOp sym true with
    | .ok sign => .unary sign
    | .error _ => .other

def Token.infixOp : Token → Option Op
  | .ident name => (wordOperator name).filter (· ≠ .notB)
  | .op sym => (toOp sym false).toOption
  | _ => none

/-- The argument counts a function takes: any but none for the variadic ones. -/
def takesArgs : Op → Nat → Bool
  | .min _, n | .max _, n | .isNan _, n | .finite _, n => 1 ≤ n
  | op, n => n = arity op

inductive Category where
  | primary
  | operand
  | chain
  | expr
  | args (count : Nat)
  | statement
  | program
  deriving DecidableEq, Repr

/-- The well-formed token sequences. Operands and binary operators alternate in
a chain; precedence does not matter for what is well formed. -/
inductive Parses : Category → List Token → Prop
  | atom {t : Token} : t.asOperand = .atom → Parses .primary [t]
  | group {e : List Token} : Parses .expr e → Parses .primary (.op .lparen :: e ++ [.op .rparen])
  | call {t : Token} {f : Op} {n : Nat} {as : List Token} : t.asOperand = .function f → takesArgs f n = true →
      Parses (.args n) as → Parses .primary (t :: .op .lparen :: as ++ [.op .rparen])
  | operand {p : List Token} : Parses .primary p → Parses .operand p
  | unary {t : Token} {op : Op} {o : List Token} : t.asOperand = .unary op → Parses .operand o →
      Parses .operand (t :: o)
  | single {o : List Token} : Parses .operand o → Parses .chain o
  | binary {c o : List Token} {t : Token} {op : Op} : Parses .chain c → t.infixOp = some op → Parses .operand o →
      Parses .chain (c ++ t :: o)
  | expr {c : List Token} : Parses .chain c → Parses .expr c
  | cond {c s e : List Token} : Parses .chain c → Parses .statement s → Parses .expr e →
      Parses .expr (c ++ .op .question :: s ++ .op .colon :: e)
  | oneArg {e : List Token} : Parses .expr e → Parses (.args 1) e
  | moreArgs {n : Nat} {as e : List Token} : Parses (.args n) as → Parses .expr e →
      Parses (.args (n + 1)) (as ++ .op .comma :: e)
  | statement {e : List Token} : Parses .expr e → Parses .statement e
  | assign {slot : Slot} {e : List Token} : Parses .expr e → Parses .statement (.arg slot :: .op .assign :: e)
  | program {s : List Token} : Parses .statement s → Parses .program s
  | sequence {p s : List Token} : Parses .program p → Parses .statement s → Parses .program (p ++ .op .semi :: s)

/-- A source text that is empty or a well-formed sequence of statements. -/
def WellFormed (src : String) : Prop := ∃ toks, lex src = .ok toks ∧ (toks = [] ∨ Parses .program toks)

/-- Where a scan of the tokens stands: whether an operand is expected, the open
parentheses (for a call its function and the commas seen) and the last token. -/
structure Scan where
  expect : Bool
  groups : List (Option (Op × Nat))
  last : Option Token
  deriving DecidableEq, Repr

namespace Scan

def init : Scan := ⟨true, [], none⟩

def called (s : Scan) : Option Op :=
  match s.last.map Token.asOperand with
  | some (.function f) => some f
  | _ => none

/-- The checks on one token; `none` is a violation:
* a variable, a number or `(` stands only where an operand is expected;
* `)` and `,` stand only after an operand, a comma only directly inside a call;
* a call closes with an argument count its function takes;
* `:=` follows a variable. -/
def token (s : Scan) (t : Token) : Option Scan :=
  match t with
  | .arg _ | .num _ => if s.expect then some ⟨false, s.groups, some t⟩ else none
  | .op .lparen => if s.expect then some ⟨true, (s.called.map fun f => (f, 0)) :: s.groups, some t⟩ else none
  | .op .rparen =>
    match s.expect, s.groups with
    | false, none :: groups => some ⟨false, groups, some t⟩
    | false, some (f, commas) :: groups =>
      if takesArgs f (commas + 1) then some ⟨false, groups, some t⟩ else none
    | _, _ => none
  | .op .comma =>
    match s.expect, s.groups with
    | false, some (f, commas) :: groups => some ⟨true, some (f, commas + 1) :: groups, some t⟩
    | _, _ => none
  | .op .assign =>
    match s.last with
    | some (.arg _) => some ⟨true, s.groups, some t⟩
    | _ => none
  | .ident name => some ⟨¬ ((constant name).isSome ∨ (nullaryOp name).isSome), s.groups, some t⟩
  | .op _ => some ⟨true, s.groups, some t⟩

def run (s : Scan) : List Token → Option Scan
  | [] => some s
  | t :: ts => (s.token t).bind fun s' => s'.run ts

end Scan

/-- The tokens of the source pass the checks. -/
def Guarded (src : String) : Prop := ∃ toks, lex src = .ok toks ∧ (Scan.init.run toks).isSome

end Spvirit.Calc
