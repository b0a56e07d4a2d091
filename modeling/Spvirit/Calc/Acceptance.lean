import Spvirit.Calc.Reading
import Spvirit.Calc.StackSafety

/-! Accepted sources that pass the checks on the order of tokens are well formed. -/

namespace Spvirit.Calc

/-- Whether an operand is expected after a token. -/
def Token.expects : Token → Bool
  | .arg _ | .num _ | .op .rparen => false
  | .ident name => ¬ ((constant name).isSome ∨ (nullaryOp name).isSome)
  | .op _ => true

theorem Scan.token_expect {g g' : Scan} {t : Token} (scanned : g.token t = some g') : g'.expect = t.expects := by
  unfold Scan.token at scanned
  split at scanned <;> (try split at scanned) <;> (try split at scanned) <;> cases scanned <;> simp [Token.expects]

theorem ParseState.ident_expectOperand {s s' : ParseState} {name : String} (passed : s.ident name = .ok s') :
    s'.expectOperand = (Token.ident name).expects := by
  unfold ParseState.ident at passed
  split at passed
  · next named =>
    split at passed <;> cases passed
    simp [pushOperand, Token.expects, named]
  · next unnamed =>
    split at passed
    · next nullary =>
      split at passed <;> cases passed
      simp [pushOperand, Token.expects, nullary]
    · next notNullary =>
      split at passed
      · split at passed <;> cases passed
        simp [pushOperator, Token.expects, unnamed, notNullary]
      · split at passed
        · cases found : identToOp name <;> simp only [found, bind, Except.bind] at passed <;> cases passed
          simp [Token.expects, unnamed, notNullary]
        · contradiction

/-- The symbols that are not operators. -/
def Sym.isMark : Sym → Bool
  | .lparen | .rparen | .question | .assign | .semi | .colon | .comma => true
  | _ => false

theorem ParseState.token_operator {s s' : ParseState} {sym : Sym} (operator : sym.isMark = false)
    (passed : s.token (.op sym) = .ok s') : ∃ op, toOp sym s.expectOperand = .ok op ∧ s' = s.pushOperator op := by
  have unfolded : s.token (.op sym) = (toOp sym s.expectOperand).map s.pushOperator := by
    cases sym <;> first | rfl | simp [Sym.isMark] at operator
  rw [unfolded] at passed
  cases found : toOp sym s.expectOperand with
  | error e => simp [found, Except.map] at passed
  | ok op => exact ⟨op, rfl, by simpa [found, Except.map, eq_comm] using passed⟩

theorem ParseState.token_expectOperand {s s' : ParseState} {t : Token} (passed : s.token t = .ok s') :
    s'.expectOperand = t.expects := by
  cases t with
  | arg _ | num _ => cases passed; rfl
  | ident name => exact ident_expectOperand passed
  | op sym =>
    cases sym with
    | lparen => cases passed; simp [Token.expects]
    | rparen => exact (closeParen_cases passed).1
    | question =>
      simp only [ParseState.token, question] at passed
      split at passed <;> cases passed
      rfl
    | assign =>
      simp only [ParseState.token, assign] at passed
      repeat' split at passed
      all_goals cases passed
      rfl
    | semi =>
      simp only [ParseState.token, semi] at passed
      repeat' split at passed
      all_goals cases passed
      rfl
    | colon =>
      simp only [ParseState.token, colon] at passed
      repeat' split at passed
      all_goals cases passed
      rfl
    | comma =>
      simp only [ParseState.token, comma] at passed
      repeat' split at passed
      all_goals cases passed
      rfl
    | _ =>
      obtain ⟨op, -, rfl⟩ := token_operator rfl passed
      rfl

namespace Reading

variable {s s' : ParseState} {g g' : Scan} {ts : List Token} {t : Token}

theorem operator_sym {sym : Sym} {op : Op} (reading : Reading s g ts) (found : toOp sym s.expectOperand = .ok op) :
    Reading (s.pushOperator op) ⟨true, g.groups, some (.op sym)⟩ (ts ++ [.op sym]) := by
  cases expects : s.expectOperand with
  | true =>
    rw [expects] at found
    have isUnary : (Token.op sym).asOperand = .unary op := by simp [Token.asOperand, found]
    exact reading.unary op expects isUnary
  | false =>
    rw [expects] at found
    have isBinary : (Token.op sym).infixOp = some op := by simp [Token.infixOp, found, Except.toOption]
    exact reading.binary op expects isBinary

theorem punctuation {sym : Sym} (reading : Reading s g ts) (sync : s.expectOperand = g.expect)
    (mark : sym.isMark = true) (passed : s.token (.op sym) = .ok s') (scanned : g.token (.op sym) = some g') :
    Reading s' g' (ts ++ [.op sym]) := by
  have closing : g.token (.op .rparen) = some g' ∨ g.token (.op .comma) = some g' → s.expectOperand = false := by
    rw [sync]
    rintro (scanned | scanned) <;> revert scanned <;> simp only [Scan.token] <;> split <;> simp_all
  cases sym with
  | lparen =>
    simp only [Scan.token, ← sync] at scanned
    split at scanned <;> cases scanned
    next expects =>
      cases passed
      exact reading.openParen expects
  | rparen => exact reading.closeParen (closing (.inl scanned)) passed scanned
  | question => cases scanned; exact reading.question passed
  | assign =>
    simp only [Scan.token] at scanned
    split at scanned <;> cases scanned
    next last => exact reading.assign passed last
  | semi => cases scanned; exact reading.semi passed
  | colon => cases scanned; exact reading.colon passed
  | comma => exact reading.comma (closing (.inr scanned)) passed scanned
  | _ => simp [Sym.isMark] at mark

theorem token (reading : Reading s g ts) (sync : s.expectOperand = g.expect) (passed : s.token t = .ok s')
    (scanned : g.token t = some g') : Reading s' g' (ts ++ [t]) := by
  cases t with
  | arg _ | num _ =>
    simp only [Scan.token, ← sync] at scanned
    split at scanned <;> cases scanned
    next expects =>
      cases passed
      exact reading.atom expects rfl
  | ident name =>
    cases scanned
    exact reading.ident passed
  | op sym =>
    cases mark : sym.isMark with
    | true => exact reading.punctuation sync mark passed scanned
    | false =>
      obtain ⟨op, found, rfl⟩ := ParseState.token_operator mark passed
      have unchecked : g.token (.op sym) = some ⟨true, g.groups, some (.op sym)⟩ := by
        cases sym <;> first | rfl | simp [Sym.isMark] at mark
      rw [unchecked] at scanned
      cases scanned
      exact reading.operator_sym found

theorem run {us : List Token} (reading : Reading s g ts) (sync : s.expectOperand = g.expect)
    (passed : s.run us = .ok s') (scanned : g.run us = some g') :
    Reading s' g' (ts ++ us) ∧ s'.expectOperand = g'.expect := by
  induction us generalizing s g ts with
  | nil =>
    cases passed
    cases scanned
    exact ⟨by simpa using reading, sync⟩
  | cons t us ih =>
    cases tok : s.token t with
    | error e => simp [ParseState.run, ParseState.step, tok, bind, Except.bind] at passed
    | ok next =>
      cases tok' : g.token t with
      | none => simp [Scan.run, tok'] at scanned
      | some g₁ =>
        simp only [ParseState.run, ParseState.step, tok, bind, Except.bind] at passed
        split at passed
        · contradiction
        · next short =>
          split at short <;> cases short
          have onward := ih (reading.token sync tok tok')
            (by rw [ParseState.token_expectOperand tok, Scan.token_expect tok']) passed
            (by simpa [Scan.run, tok'] using scanned)
          simpa using onward

end Reading

theorem Reading.init : Reading ParseState.init Scan.init [] :=
  .operand (show [] = opFrames [] ++ [] from rfl) rfl .start (.none _) .nil (fun _ => ⟨rfl, rfl⟩) rfl rfl

theorem compileTokens_program {toks : List Token} {s : ParseState} {ops : List Op} (nonempty : toks ≠ [])
    (parsed : ParseState.init.run toks = .ok s) (finished : finishParse s toks.isEmpty = .ok ops)
    (scanned : (Scan.init.run toks).isSome) : Parses .program toks := by
  obtain ⟨g, scanned⟩ := Option.isSome_iff_exists.mp scanned
  obtain ⟨reading, -⟩ := Reading.init.run rfl parsed scanned
  obtain ⟨flushed, closed, -, -⟩ := finishParse_ok finished
  have expects : s.expectOperand = false := by simpa [nonempty] using closed
  have frames : (unwind s.stack s.out).1 = [] := by rw [flushed]
  rcases reading.unwound expects frames with found | ⟨h, y, opened, complete, read⟩
  · simp [loose] at found
  · rw [List.nil_append] at read
    exact read ▸ (opened.program complete).2

/-- Among the sources the compiler accepts, the well-formed ones are exactly
those whose tokens pass the checks it does not make itself. -/
theorem compile_wellFormed_iff (src : String) (ops : List Op) (compiled : compile src = .ok ops) :
    WellFormed src ↔ Guarded src := by
  refine ⟨WellFormed.guarded, ?_⟩
  rintro ⟨toks, lexed, scanned⟩
  obtain ⟨toks', s, lexed', parsed, finished⟩ := compile_ok compiled
  obtain rfl : toks = toks' := by simpa [lexed] using lexed'
  by_cases nonempty : toks = []
  · exact ⟨toks, lexed, Or.inl nonempty⟩
  · exact ⟨toks, lexed, Or.inr (compileTokens_program nonempty parsed finished scanned)⟩

theorem compile_wellFormed_iff_max : compile "MAX(A,1)" = .ok [.arg 0, .lit (.decimal [49]), .max 2] ∧
    (WellFormed "MAX(A,1)" ↔ Guarded "MAX(A,1)") ∧ Guarded "MAX(A,1)" := by
  have compiled : compile "MAX(A,1)" = .ok [.arg 0, .lit (.decimal [49]), .max 2] := by decide +kernel
  refine ⟨compiled, compile_wellFormed_iff _ _ compiled, ?_⟩
  exact ⟨[.ident "MAX", .op .lparen, .arg 0, .op .comma, .num (.decimal [49]), .op .rparen], by decide +kernel,
    by decide +kernel⟩

/-- Two operands side by side are accepted as the two arguments of a call. -/
theorem compile_accepts_adjacent_operands :
    compile "ATAN2(A B)" = .ok [.arg 0, .arg 1, .atan2] ∧ ¬ WellFormed "ATAN2(A B)" := by
  refine ⟨by decide +kernel, fun formed => ?_⟩
  obtain ⟨toks, lexed, scanned⟩ := formed.guarded
  have tokens : lex "ATAN2(A B)" = .ok [.ident "ATAN2", .op .lparen, .arg 0, .arg 1, .op .rparen] := by decide +kernel
  rw [tokens] at lexed
  cases lexed
  revert scanned
  decide +kernel

end Spvirit.Calc
