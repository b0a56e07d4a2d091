import Spvirit.Calc.Op

/-! The CALC lexer, over the bytes of the source text. -/

namespace Spvirit.Calc

/-- The operator and punctuation spellings. -/
inductive Sym where
  | shrLogic
  | shr
  | ge
  | gt
  | shl
  | le
  | lt
  | starStar
  | star
  | assign
  | colon
  | eqEq
  | eq
  | bangEq
  | bang
  | ampAmp
  | amp
  | barBar
  | bar
  | plus
  | minus
  | slash
  | percent
  | caret
  | tilde
  | hash
  | lparen
  | rparen
  | comma
  | question
  | semi
  deriving DecidableEq, Repr

inductive Token where
  | arg (slot : Slot)
  | num (value : Literal)
  | ident (name : String)
  | op (sym : Sym)
  deriving DecidableEq, Repr

def byte (c : Char) : UInt8 := c.toUInt8

def Sym.text : Sym → List Char
  | .shrLogic => ['>', '>', '>']
  | .shr => ['>', '>']
  | .ge => ['>', '=']
  | .gt => ['>']
  | .shl => ['<', '<']
  | .le => ['<', '=']
  | .lt => ['<']
  | .starStar => ['*', '*']
  | .star => ['*']
  | .assign => [':', '=']
  | .colon => [':']
  | .eqEq => ['=', '=']
  | .eq => ['=']
  | .bangEq => ['!', '=']
  | .bang => ['!']
  | .ampAmp => ['&', '&']
  | .amp => ['&']
  | .barBar => ['|', '|']
  | .bar => ['|']
  | .plus => ['+']
  | .minus => ['-']
  | .slash => ['/']
  | .percent => ['%']
  | .caret => ['^']
  | .tilde => ['~']
  | .hash => ['#']
  | .lparen => ['(']
  | .rparen => [')']
  | .comma => [',']
  | .question => ['?']
  | .semi => [';']

def Sym.bytes (s : Sym) : List UInt8 := s.text.map byte

/-- Longer spellings stand before any shorter prefix of them. -/
def symbols : List Sym :=
  [.shrLogic, .shr, .ge, .gt, .shl, .le, .lt, .starStar, .star, .assign, .colon, .eqEq, .eq, .bangEq, .bang, .ampAmp,
    .amp, .barBar, .bar, .plus, .minus, .slash, .percent, .caret, .tilde, .hash, .lparen, .rparen, .comma, .question,
    .semi]

def isAsciiWhitespace (b : UInt8) : Bool := b = 32 || b = 9 || b = 10 || b = 12 || b = 13
def isAsciiDigit (b : UInt8) : Bool := 48 ≤ b && b ≤ 57
def isAsciiAlphabetic (b : UInt8) : Bool := (65 ≤ b && b ≤ 90) || (97 ≤ b && b ≤ 122)
def isAsciiHexdigit (b : UInt8) : Bool := isAsciiDigit b || (65 ≤ b && b ≤ 70) || (97 ≤ b && b ≤ 102)
def isWordByte (b : UInt8) : Bool := isAsciiAlphabetic b || isAsciiDigit b || b = byte '_'
def toAsciiUppercase (b : UInt8) : UInt8 := if 97 ≤ b && b ≤ 122 then b - 32 else b

def hexValue (b : UInt8) : Nat :=
  if isAsciiDigit b then b.toNat - 48 else (toAsciiUppercase b).toNat - 55

/-- The run of bytes at the head of the text that satisfy `p`, by its length. -/
def runLen (p : UInt8 → Bool) (s : List UInt8) : Nat := (s.takeWhile p).length

/-- A `.` counts only if it has a digit on one side or the other. -/
def fractionLen (int : Nat) : List UInt8 → Nat
  | [] => 0
  | c :: rest =>
    if c = byte '.' ∧ (0 < runLen isAsciiDigit rest ∨ 0 < int) then 1 + runLen isAsciiDigit rest else 0

def signLen : List UInt8 → Nat
  | [] => 0
  | c :: _ => if c = byte '+' ∨ c = byte '-' then 1 else 0

/-- An exponent with no digits is not part of the literal. -/
def exponentLen : List UInt8 → Nat
  | [] => 0
  | c :: rest =>
    if (c = byte 'e' ∨ c = byte 'E') ∧ 0 < runLen isAsciiDigit (rest.drop (signLen rest)) then
      1 + signLen rest + runLen isAsciiDigit (rest.drop (signLen rest))
    else 0

def lexDecimal (s : List UInt8) : Option (Literal × Nat) :=
  let int := runLen isAsciiDigit s
  let mantissa := int + fractionLen int (s.drop int)
  if mantissa = 0 then none
  else
    let len := mantissa + exponentLen (s.drop mantissa)
    some (.decimal (s.take len), len)

/-- The digits after `0x`; a value that does not fit in 32 bits is rejected. -/
def lexHex (rest : List UInt8) : Option (Literal × Nat) :=
  let digits := rest.takeWhile isAsciiHexdigit
  let value := digits.foldl (fun acc d => 16 * acc + hexValue d) 0
  if digits.length = 0 ∨ 2 ^ 32 ≤ value then none else some (.hex (UInt32.ofNat value), 2 + digits.length)

def hexPrefix : List UInt8 → Option (List UInt8)
  | z :: x :: rest => if z = byte '0' ∧ (x = byte 'x' ∨ x = byte 'X') then some rest else none
  | _ => none

def lexNumber (s : List UInt8) : Option (Literal × Nat) :=
  match hexPrefix s with
  | some rest => lexHex rest
  | none => lexDecimal s

def asciiString (bytes : List UInt8) : String := String.ofList (bytes.map fun b => Char.ofNat b.toNat)

/-- A word of one letter `A`-`U`, in either case, is an operand. -/
def wordToken (word : List UInt8) : Token :=
  match word.map toAsciiUppercase with
  | [ch] => if h : 65 ≤ ch.toNat ∧ ch.toNat ≤ 85 then .arg ⟨ch.toNat - 65, by omega⟩ else .ident (asciiString [ch])
  | upper => .ident (asciiString upper)

def startsNumber : List UInt8 → Bool
  | [] => false
  | c :: rest => isAsciiDigit c || (c = byte '.' && (rest.head?.map isAsciiDigit).getD false)

/-- The token at the head of a text that starts with no blank, and its length in bytes. -/
def lexToken (s : List UInt8) (i : Nat) : Except CalcError (Token × Nat) :=
  if startsNumber s then
    match lexNumber s with
    | none => .error (.badNumber i)
    | some (value, len) => .ok (.num value, len)
  else if (s.head?.map isAsciiAlphabetic).getD false then
    .ok (wordToken (s.takeWhile isWordByte), runLen isWordByte s)
  else
    match symbols.find? fun sym => sym.bytes.isPrefixOf s with
    | some sym => .ok (.op sym, sym.bytes.length)
    | none => .error (.badChar (s.headD 0) i)

/-- The lexing loop at byte offset `i`. -/
def lexFrom (i : Nat) : List UInt8 → Except CalcError (List Token)
  | [] => .ok []
  | c :: rest =>
    if isAsciiWhitespace c then lexFrom (i + 1) rest
    else do
      let (tok, len) ← lexToken (c :: rest) i
      let toks ← lexFrom (i + len) (rest.drop (len - 1))
      .ok (tok :: toks)
termination_by s => s.length

def lex (src : String) : Except CalcError (List Token) := lexFrom 0 src.toUTF8.data.toList

example : lex "A>>>0xffffffff" = .ok [.arg 0, .op .shrLogic, .num (.hex 4294967295)] := by decide +kernel

end Spvirit.Calc
