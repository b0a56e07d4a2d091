import Mathlib.Tactic

/-! The parser of access security files. Each loop of the source is a recursion on fuel, which the
number of tokens bounds. -/

namespace Spvirit.Gateway

/-- The characters Unicode calls white space. -/
def isWhitespace (c : Char) : Bool :=
  (9 ≤ c.toNat && c.toNat ≤ 13) || c.toNat = 0x20 || c.toNat = 0x85 || c.toNat = 0xA0 || c.toNat = 0x1680 ||
    (0x2000 ≤ c.toNat && c.toNat ≤ 0x200A) || c.toNat = 0x2028 || c.toNat = 0x2029 || c.toNat = 0x202F ||
    c.toNat = 0x205F || c.toNat = 0x3000

/-- Digits, after an optional plus sign, of a number below 2^32. -/
def parseU32 (word : List Char) : Option Nat :=
  let digits :=
    match word with
    | '+' :: rest => rest
    | _ => word
  if digits.isEmpty ∨ ¬ digits.all Char.isDigit then none
  else
    let value := digits.foldl (fun n d => 10 * n + (d.toNat - 48)) 0
    if value < 2 ^ 32 then some value else none

inductive Token where
  | ident (s : String)
  | number (n : Nat)
  | lparen
  | rparen
  | lbrace
  | rbrace
  | comma
  deriving DecidableEq, Repr

/-- What a message says, with the data it prints. -/
inductive AcfError where
  | unterminatedString (start : Nat)
  | endOfInput
  | expected (token found : Token)
  | expectedIdent (found : Token)
  | expectedNumber (found : Token)
  | expectedListItem (found : Token)
  | expectedComma (close : Token) (found : Option Token)
  | calc
  | unknownOperation (word : String)
  | expectedClause (found : Option Token)
  | expectedRule (found : Option Token)
  | duplicate (keyword name : String)
  | unexpectedKeyword (word : String)
  | outOfFuel
  deriving DecidableEq, Repr

def isDelimiter (c : Char) : Bool := ['(', ')', '\x7b', '\x7d', ',', '#', '"'].contains c

def isWordChar (c : Char) : Bool := !isWhitespace c && !isDelimiter c

/-- One turn of the loop: the token read, if any, and the characters left. -/
def readToken (pos : Nat) : List Char → Except AcfError (Option Token × List Char)
  | [] => .ok (none, [])
  | c :: rest =>
    if isWhitespace c then .ok (none, rest)
    else if c = '#' then .ok (none, rest.dropWhile (· ≠ '\n'))
    else if c = '(' then .ok (some .lparen, rest)
    else if c = ')' then .ok (some .rparen, rest)
    else if c = '\x7b' then .ok (some .lbrace, rest)
    else if c = '\x7d' then .ok (some .rbrace, rest)
    else if c = ',' then .ok (some .comma, rest)
    else if c = '"' then
      match rest.dropWhile (· ≠ '"') with
      | [] => .error (.unterminatedString pos)
      | _ :: behind => .ok (some (.ident (String.ofList (rest.takeWhile (· ≠ '"')))), behind)
    else
      let word := (c :: rest).takeWhile isWordChar
      let token :=
        match parseU32 word with
        | some n => .number n
        | none => .ident (String.ofList word)
      .ok (some token, (c :: rest).dropWhile isWordChar)

def tokenizeFrom : Nat → Nat → List Char → Except AcfError (List Token)
  | _, _, [] => .ok []
  | 0, _, _ :: _ => .error .outOfFuel
  | fuel + 1, pos, c :: rest => do
    let (token, behind) ← readToken pos (c :: rest)
    let tokens ← tokenizeFrom fuel (pos + ((c :: rest).length - behind.length)) behind
    .ok (token.toList ++ tokens)

def tokenize (text : String) : Except AcfError (List Token) := tokenizeFrom text.toList.length 0 text.toList

/-- The next token must be this one. -/
def expect (token : Token) : List Token → Except AcfError (List Token)
  | [] => .error .endOfInput
  | t :: ts => if t = token then .ok ts else .error (.expected token t)

def expectIdent : List Token → Except AcfError (String × List Token)
  | [] => .error .endOfInput
  | .ident s :: ts => .ok (s, ts)
  | t :: _ => .error (.expectedIdent t)

def expectNumber : List Token → Except AcfError (Nat × List Token)
  | [] => .error .endOfInput
  | .number n :: ts => .ok (n, ts)
  | t :: _ => .error (.expectedNumber t)

/-- Items and commas up to the closing token, which is taken. A comma may stand before it. -/
def parseItems (close : Token) (item : Token → Except AcfError String) :
    List Token → Except AcfError (List String × List Token)
  | [] => .error .endOfInput
  | [t] => if t = close then .ok ([], []) else do
    let _ ← item t
    .error (.expectedComma close none)
  | t :: next :: ts => if t = close then .ok ([], next :: ts) else do
    let first ← item t
    if next = .comma then do
      let (items, rest) ← parseItems close item ts
      .ok (first :: items, rest)
    else if next = close then .ok ([first], ts)
    else .error (.expectedComma close (some next))

/-- A number in the list is taken as written in decimals. -/
def listItem : Token → Except AcfError String
  | .ident s => .ok s
  | .number n => .ok (toString n)
  | t => .error (.expectedListItem t)

def identItem : Token → Except AcfError String
  | .ident s => .ok s
  | t => .error (.expectedIdent t)

def parseParenIdentList (ts : List Token) : Except AcfError (List String × List Token) := do
  let ts ← expect .lparen ts
  parseItems .rparen listItem ts

def parseBraceIdentList (ts : List Token) : Except AcfError (List String × List Token) := do
  let ts ← expect .lbrace ts
  parseItems .rbrace identItem ts

structure OpSet where
  get : Bool := false
  put : Bool := false
  rpc : Bool := false
  deriving DecidableEq, Repr

def addOperation (ops : OpSet) (word : String) : Except AcfError OpSet :=
  if word = "READ" ∨ word = "GET" then .ok { ops with get := true }
  else if word = "WRITE" ∨ word = "PUT" then .ok { ops with put := true }
  else if word = "RPC" then .ok { ops with rpc := true }
  else if word = "CALC" then .error .calc
  else .error (.unknownOperation word)

def parseOps : Nat → OpSet → List Token → Except AcfError (OpSet × List Token)
  | 0, _, _ => .error .outOfFuel
  | fuel + 1, ops, ts => do
    let (word, ts) ← expectIdent ts
    let ops ← addOperation ops word
    match ts with
    | .comma :: ts => if ts.head? = some (.ident "CALC") then .error .calc else parseOps fuel ops ts
    | ts => .ok (ops, ts)

inductive GroupKind where
  | uag
  | hag
  deriving DecidableEq, Repr

def GroupKind.keyword : GroupKind → String
  | .uag => "UAG"
  | .hag => "HAG"

/-- A clause of a membership block, as written. -/
structure Clause where
  kind : GroupKind
  names : List String
  deriving DecidableEq, Repr

/-- A rule, with what the parser keeps of its membership block. -/
structure RuleOf (μ : Type) where
  asl : Nat
  ops : OpSet
  members : μ

/-- What the parser keeps of membership blocks: for a rule without one, for a block
just opened, and after one more clause. -/
structure Keeping (μ : Type) where
  absent : μ
  opened : μ
  extend : μ → Clause → μ

section

variable {μ : Type} (keep : Keeping μ)

/-- The clauses of a block up to its closing brace, which is taken. -/
def parseBlock : Nat → μ → List Token → Except AcfError (μ × List Token)
  | 0, _, _ => .error .outOfFuel
  | fuel + 1, kept, ts =>
    let clause (kind : GroupKind) (ts : List Token) : Except AcfError (μ × List Token) := do
      let (names, ts) ← parseParenIdentList ts
      match ts with
      | .comma :: ts => parseBlock fuel (keep.extend kept ⟨kind, names⟩) ts
      | .rbrace :: ts => .ok (keep.extend kept ⟨kind, names⟩, ts)
      | ts => .error (.expectedComma .rbrace ts.head?)
    match ts with
    | .rbrace :: ts => .ok (kept, ts)
    | .ident word :: ts =>
      if word = "UAG" then clause .uag ts
      else if word = "HAG" then clause .hag ts
      else .error (.expectedClause (some (.ident word)))
    | ts => .error (.expectedClause ts.head?)

/-- A rule behind its keyword. -/
def parseRule (ts : List Token) : Except AcfError (RuleOf μ × List Token) := do
  let ts ← expect .lparen ts
  let (asl, ts) ← expectNumber ts
  let ts ← expect .comma ts
  let (ops, ts) ← parseOps (ts.length + 1) {} ts
  let ts ← expect .rparen ts
  match ts with
  | .lbrace :: ts => do
    let (members, ts) ← parseBlock keep (ts.length + 1) keep.opened ts
    .ok (⟨asl, ops, members⟩, ts)
  | ts => .ok (⟨asl, ops, keep.absent⟩, ts)

def parseRules : Nat → List Token → Except AcfError (List (RuleOf μ) × List Token)
  | 0, _ => .error .outOfFuel
  | fuel + 1, ts =>
    match ts with
    | .rbrace :: ts => .ok ([], ts)
    | .ident word :: ts =>
      if word = "RULE" then do
        let (rule, ts) ← parseRule keep ts
        let (rules, ts) ← parseRules fuel ts
        .ok (rule :: rules, ts)
      else .error (.expectedRule (some (.ident word)))
    | ts => .error (.expectedRule ts.head?)

def parseAsgBody (ts : List Token) : Except AcfError (List (RuleOf μ) × List Token) := do
  let ts ← expect .lbrace ts
  parseRules keep (ts.length + 1) ts

/-- A parsed document: the members of each group and the rules of each security group. -/
structure AcfOf (μ : Type) where
  groups : GroupKind → String → Option (List String)
  asgs : String → Option (List (RuleOf μ))

def AcfOf.empty : AcfOf μ := ⟨fun _ _ => none, fun _ => none⟩

/-- The name behind a top-level keyword, in parentheses. -/
def parseName (ts : List Token) : Except AcfError (String × List Token) := do
  let ts ← expect .lparen ts
  let (name, ts) ← expectIdent ts
  let ts ← expect .rparen ts
  .ok (name, ts)

/-- A definition of a group. One that is already there is an error. -/
def parseGroup (acf : AcfOf μ) (kind : GroupKind) (ts : List Token) : Except AcfError (AcfOf μ × List Token) := do
  let (name, ts) ← parseName ts
  let (members, ts) ← parseBraceIdentList ts
  if (acf.groups kind name).isSome then .error (.duplicate kind.keyword name)
  else
    .ok ({ acf with
      groups := Function.update acf.groups kind (Function.update (acf.groups kind) name (some members)) }, ts)

def parseAsg (acf : AcfOf μ) (ts : List Token) : Except AcfError (AcfOf μ × List Token) := do
  let (name, ts) ← parseName ts
  let (rules, ts) ← parseAsgBody keep ts
  if (acf.asgs name).isSome then .error (.duplicate "ASG" name)
  else .ok ({ acf with asgs := Function.update acf.asgs name (some rules) }, ts)

/-- The definition behind a top-level keyword. -/
def parseDefinition (acf : AcfOf μ) (word : String) (ts : List Token) : Except AcfError (AcfOf μ × List Token) :=
  if word = "UAG" then parseGroup acf .uag ts
  else if word = "HAG" then parseGroup acf .hag ts
  else if word = "ASG" then parseAsg keep acf ts
  else .error (.unexpectedKeyword word)

def parseDocument : Nat → AcfOf μ → List Token → Except AcfError (AcfOf μ)
  | _, acf, [] => .ok acf
  | 0, _, _ :: _ => .error .outOfFuel
  | fuel + 1, acf, t :: ts => do
    let (word, ts) ← expectIdent (t :: ts)
    let (acf, ts) ← parseDefinition keep acf word ts
    parseDocument fuel acf ts

def parseText (text : String) : Except AcfError (AcfOf μ) := do
  let tokens ← tokenize text
  parseDocument keep tokens.length .empty tokens

end

/-- The groups a rule names, its clauses of a kind merged into one list. -/
structure Groups where
  uags : List String
  hags : List String
  deriving DecidableEq, Repr

/-- The names of a clause are appended to those of its kind. -/
def Groups.extend (g : Groups) (c : Clause) : Groups :=
  match c.kind with
  | .uag => { g with uags := g.uags ++ c.names }
  | .hag => { g with hags := g.hags ++ c.names }

/-- The source's parser: no block leaves the same empty lists as an empty block. -/
def merging : Keeping Groups := ⟨⟨[], []⟩, ⟨[], []⟩, Groups.extend⟩

abbrev AsgRule := RuleOf Groups

abbrev Acf := AcfOf Groups

def parseAcf (text : String) : Except AcfError Acf := parseText merging text

end Spvirit.Gateway
