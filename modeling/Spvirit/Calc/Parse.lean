import Spvirit.Calc.Lex

/-! The CALC compiler: one pass over the tokens with an operator stack. -/

namespace Spvirit.Calc

def maxOps : Nat := 1000

/-- A pending entry of the operator stack. `condHead` is a `?` waiting for its
`:`, `condTail` one past its `:` that waits for the end of its else-branch. -/
inductive Frame where
  | op (op : Op)
  | paren
  | condHead (ifIdx : Nat)
  | condTail (ifIdx elseIdx : Nat)
  | func (op : Op)
  deriving DecidableEq, Repr

def finalizeCond (out : List Op) (ifIdx elseIdx : Nat) : List Op :=
  ((out ++ [Op.condEnd]).set ifIdx (.condIf (elseIdx + 1))).set elseIdx (.condElse (out.length + 1))

def shouldPop (top : Op) (prec : Nat) : Assoc → Bool
  | .left => prec ≤ (precedence top).1
  | .right => prec < (precedence top).1

def popWhile : List Frame → List Op → Nat → Assoc → List Frame × List Op
  | .op top :: stack, out, prec, assoc =>
    if shouldPop top prec assoc then popWhile stack (out ++ [top]) prec assoc else (.op top :: stack, out)
  | stack, out, _, _ => (stack, out)

/-- Pop pending operators and finish pending conditionals down to the first
other frame: what `)`, `,`, `;` and the end of the input have in common. -/
def unwind : List Frame → List Op → List Frame × List Op
  | .op top :: stack, out => unwind stack (out ++ [top])
  | .condTail ifIdx elseIdx :: stack, out => unwind stack (finalizeCond out ifIdx elseIdx)
  | stack, out => (stack, out)

/-- The unwinding of `:`, which carries pending stores across the conditional. -/
def unwindColon : List Frame → List Op → List Op → List Frame × List Op × List Op
  | .op (.store slot) :: stack, out, held => unwindColon stack out (held ++ [.store slot])
  | .op top :: stack, out, held => unwindColon stack (out ++ [top]) held
  | .condTail ifIdx elseIdx :: stack, out, held => unwindColon stack (finalizeCond out ifIdx elseIdx) held
  | stack, out, held => (stack, out, held)

def toOp : Sym → Bool → Except CalcError Op
  | .minus, true => .ok .neg
  | .plus, false => .ok .add
  | .minus, false => .ok .sub
  | .star, false => .ok .mul
  | .slash, false => .ok .div
  | .percent, false => .ok .modulo
  | .caret, false | .starStar, false => .ok .pow
  | .bang, true => .ok .notL
  | .gt, false => .ok .gt
  | .ge, false => .ok .ge
  | .lt, false => .ok .lt
  | .le, false => .ok .le
  | .eq, false | .eqEq, false => .ok .eq
  | .hash, false | .bangEq, false => .ok .ne
  | .ampAmp, false => .ok .andL
  | .barBar, false => .ok .orL
  | .tilde, true => .ok .notB
  | .amp, false => .ok .andB
  | .bar, false => .ok .orB
  | .shl, false => .ok .shl
  | .shr, false => .ok .shr
  | .shrLogic, false => .ok .shrLogic
  | _, _ => .error .missingOperand

def constant : String → Option Literal
  | "PI" => some .pi
  | "D2R" => some .d2r
  | "R2D" => some .r2d
  | "INF" | "INFINITY" => some .inf
  | "NAN" => some .nan
  | _ => none

def nullaryOp : String → Option Op
  | "RNDM" => some .rndm
  | _ => none

/-- The variadic functions get their count when their call closes. -/
def identToOp : String → Except CalcError Op
  | "ABS" => .ok .abs
  | "SQR" | "SQRT" => .ok .sqrt
  | "EXP" => .ok .exp
  | "LOG" => .ok .log10
  | "LOGE" | "LN" => .ok .ln
  | "CEIL" => .ok .ceil
  | "FLOOR" => .ok .floor
  | "NINT" => .ok .nint
  | "SIN" => .ok .sin
  | "COS" => .ok .cos
  | "TAN" => .ok .tan
  | "ASIN" => .ok .asin
  | "ACOS" => .ok .acos
  | "ATAN" => .ok .atan
  | "ATAN2" => .ok .atan2
  | "FMOD" => .ok .fmod
  | "SINH" => .ok .sinh
  | "COSH" => .ok .cosh
  | "TANH" => .ok .tanh
  | "MIN" => .ok (.min 0)
  | "MAX" => .ok (.max 0)
  | "ISINF" => .ok .isInf
  | "ISNAN" => .ok (.isNan 0)
  | "FINITE" => .ok (.finite 0)
  | name => .error (.unknownIdent name)

def wordOperator : String → Option Op
  | "AND" => some .andB
  | "OR" => some .orB
  | "XOR" => some .xorB
  | "NOT" => some .notB
  | _ => none

/-- Only the variadic functions use the count of their arguments. -/
def withCount (count : Nat) : Op → Op
  | .min _ => .min count
  | .max _ => .max count
  | .isNan _ => .isNan count
  | .finite _ => .finite count
  | op => op

/-- The lists `argCounts` and `callStarts` have one entry for each open call: the commas
seen so far and the length of the output where its parenthesis opened. -/
structure ParseState where
  out : List Op
  stack : List Frame
  expectOperand : Bool
  argCounts : List Nat
  callStarts : List Nat
  deriving DecidableEq, Repr

namespace ParseState

def init : ParseState := ⟨[], [], true, [], []⟩

def pushOperand (s : ParseState) (op : Op) : ParseState :=
  { s with out := s.out ++ [op], expectOperand := false }

def pushOperator (s : ParseState) (op : Op) : ParseState :=
  let popped := popWhile s.stack s.out (precedence op).1 (precedence op).2
  { s with stack := .op op :: popped.1, out := popped.2, expectOperand := true }

def openParen (s : ParseState) : ParseState :=
  match s.stack with
  | .func _ :: _ =>
    { s with
      stack := .paren :: s.stack, expectOperand := true, argCounts := 0 :: s.argCounts,
      callStarts := s.out.length :: s.callStarts }
  | _ => { s with stack := .paren :: s.stack, expectOperand := true }

def closeParen (s : ParseState) : Except CalcError ParseState :=
  match unwind s.stack s.out with
  | (.paren :: .func op :: stack, out) =>
    if out.length = s.callStarts.headD out.length then .error .missingOperand
    else
      .ok ⟨out ++ [withCount (s.argCounts.headD 0 + 1) op], stack, false, s.argCounts.tail, s.callStarts.tail⟩
  | (.paren :: stack, out) => .ok { s with stack := stack, out := out, expectOperand := false }
  | (.condHead _ :: _, _) => .error .badConditional
  | _ => .error .unbalanced

def question (s : ParseState) : Except CalcError ParseState :=
  if s.expectOperand then .error .missingOperand
  else
    let popped := popWhile s.stack s.out 0 .right
    .ok { s with
      out := popped.2 ++ [.condIf 0], stack := .condHead popped.2.length :: popped.1, expectOperand := true }

/-- The token `:=` takes the fetch it finds at the end of the output back and leaves the
store pending. Only a pending `?` may stand on the operator stack. -/
def assign (s : ParseState) : Except CalcError ParseState :=
  if s.expectOperand then .error .missingOperand
  else if s.stack.all (fun f => match f with | .condHead _ => true | _ => false) then
    match s.out.getLast? with
    | some (.arg slot) =>
      .ok { s with out := s.out.dropLast, stack := .op (.store slot) :: s.stack, expectOperand := true }
    | _ => .error .badAssignment
  else .error .badAssignment

def semi (s : ParseState) : Except CalcError ParseState :=
  if s.expectOperand then .error .missingOperand
  else
    match unwind s.stack s.out with
    | ([], out) => .ok { s with stack := [], out := out, expectOperand := true }
    | (.condHead _ :: _, _) => .error .badConditional
    | _ => .error .unbalanced

def colon (s : ParseState) : Except CalcError ParseState :=
  if s.expectOperand then .error .missingOperand
  else
    match unwindColon s.stack s.out [] with
    | (.condHead ifIdx :: stack, out, held) =>
      .ok { s with
        out := out ++ [.condElse 0], stack := .condTail ifIdx out.length :: (held.map .op ++ stack),
        expectOperand := true }
    | _ => .error .badConditional

def comma (s : ParseState) : Except CalcError ParseState :=
  match unwind s.stack s.out with
  | (.paren :: stack, out) =>
    match s.argCounts with
    | commas :: outer =>
      .ok { s with stack := .paren :: stack, out := out, argCounts := (commas + 1) :: outer, expectOperand := true }
    | [] => .error .unbalanced
  | (.condHead _ :: _, _) => .error .badConditional
  | _ => .error .unbalanced

def ident (s : ParseState) (name : String) : Except CalcError ParseState :=
  match constant name with
  | some v => if s.expectOperand then .ok (s.pushOperand (.lit v)) else .error .extraOperand
  | none =>
    match nullaryOp name with
    | some op => if s.expectOperand then .ok (s.pushOperand op) else .error .extraOperand
    | none =>
      match wordOperator name with
      | some op => if decide (op = .notB) = s.expectOperand then .ok (s.pushOperator op) else .error .missingOperand
      | none =>
        if s.expectOperand then do
          let op ← identToOp name
          .ok { s with stack := .func op :: s.stack, expectOperand := true }
        else .error .extraOperand

def token (s : ParseState) : Token → Except CalcError ParseState
  | .arg slot => .ok (s.pushOperand (.arg slot))
  | .num v => .ok (s.pushOperand (.lit v))
  | .ident name => s.ident name
  | .op .lparen => .ok s.openParen
  | .op .rparen => s.closeParen
  | .op .question => s.question
  | .op .assign => s.assign
  | .op .semi => s.semi
  | .op .colon => s.colon
  | .op .comma => s.comma
  | .op sym => do
    let op ← toOp sym s.expectOperand
    .ok (s.pushOperator op)

/-- One turn of the token loop, with the length check that ends it. -/
def step (s : ParseState) (tok : Token) : Except CalcError ParseState := do
  let s ← s.token tok
  if maxOps < s.out.length then .error .tooLong else .ok s

def run (s : ParseState) : List Token → Except CalcError ParseState
  | [] => .ok s
  | tok :: toks => do
    let s ← s.step tok
    s.run toks

end ParseState

/-- The stack depth left by `ops[i..end]` when it starts at `depth`. Both
branches of a conditional start at the same depth and must leave one value. -/
def checkSegment (ops : List Op) (i stop depth : Nat) : Except CalcError Nat :=
  if _inside : i < stop then
    match ops[i]? with
    | some (.condIf elseTarget) =>
      if depth < 1 then .error .missingOperand
      else if _bounds : elseTarget = 0 ∨ stop < elseTarget ∨ elseTarget - 1 ≤ i then .error .unbalanced
      else
        match ops[elseTarget - 1]? with
        | some (.condElse endTarget) =>
          if _outside : endTarget = 0 ∨ stop < endTarget ∨ endTarget ≤ elseTarget - 1 then .error .unbalanced
          else if ops[endTarget - 1]? ≠ some .condEnd then .error .unbalanced
          else do
            let thenDepth ← checkSegment ops (i + 1) (elseTarget - 1) (depth - 1)
            if thenDepth ≠ depth then .error (if thenDepth < depth then .missingOperand else .extraOperand)
            else
              let elseDepth ← checkSegment ops elseTarget (endTarget - 1) (depth - 1)
              if elseDepth ≠ depth then .error (if elseDepth < depth then .missingOperand else .extraOperand)
              else checkSegment ops endTarget stop depth
        | _ => .error .unbalanced
    | some (.condElse _) | some .condEnd | none => .error .unbalanced
    | some (.store _) => if depth < 1 then .error .missingOperand else checkSegment ops (i + 1) stop (depth - 1)
    | some op =>
      if depth < arity op then .error .missingOperand else checkSegment ops (i + 1) stop (depth - arity op + 1)
  else .ok depth
termination_by stop - i

def checkArity (ops : List Op) : Except CalcError Unit := do
  let depth ← checkSegment ops 0 ops.length 0
  if depth = 0 ∧ ops = [] ∨ depth = 1 then .ok ()
  else .error (if depth = 0 then .missingOperand else .extraOperand)

/-- What is left to do after the last token. -/
def finishParse (s : ParseState) (noTokens : Bool) : Except CalcError (List Op) :=
  match unwind s.stack s.out with
  | ([], out) =>
    if s.expectOperand ∧ noTokens = false then .error .missingOperand
    else if maxOps < out.length then .error .tooLong
    else do
      checkArity out
      .ok out
  | (.condHead _ :: _, _) => .error .badConditional
  | (.func _ :: _, _) => .error .missingOperand
  | _ => .error .unbalanced

def compileTokens (toks : List Token) : Except CalcError (List Op) := do
  let s ← ParseState.init.run toks
  finishParse s toks.isEmpty

def compile (src : String) : Except CalcError (List Op) := do
  let toks ← lex src
  compileTokens toks

example : compile "A?B:=1:2;3" =
    .ok [.arg 0, .condIf 4, .lit (.decimal [49]), .condElse 6, .lit (.decimal [50]), .condEnd, .store 1,
      .lit (.decimal [51])] := by
  decide +kernel

end Spvirit.Calc
