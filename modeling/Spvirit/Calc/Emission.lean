import Spvirit.Calc.Codegen

/-! Reading the tokens of a tree emits its code, up to the frames that wait. -/

namespace Spvirit.Calc

/-- The tokens lead to the state `after`, up to frames that wait above its
stack and will complete the code. -/
def Emits (level : Nat) (s after : ParseState) (ts : List Token) (code : List Op) : Prop :=
  ∃ waiting out, s.run ts = .ok { after with out := out, stack := waiting ++ after.stack, expectOperand := false } ∧
    Settles level waiting out (s.out ++ code)

theorem Settles.nil (level : Nat) (code : List Op) : Settles level [] code code := ⟨by simp, rfl, le_rfl⟩

theorem Settles.op {level tighter : Nat} {waiting : List Frame} {out code : List Op} {op : Op}
    (settles : Settles tighter waiting out code) (ordered : level ≤ tighter) (waits : Waits level (.op op)) :
    Settles level (waiting ++ [.op op]) out (code ++ [op]) := by
  refine ⟨fun f member => ?_, ?_, ?_⟩
  · rcases List.mem_append.mp member with old | new
    · have tight := settles.waits f old
      cases f with
      | op top => exact ⟨ordered.trans tight.1, tight.2⟩
      | condTail i j =>
        have : tighter = 0 := tight
        exact Nat.le_zero.mp (this ▸ ordered)
      | paren | condHead _ => exact tight
      | func f => exact tight
    · rw [List.mem_singleton.mp new]
      exact waits
  · rw [unwind_waiting settles.waits, settles.flushed]
    rfl
  · have := settles.short
    simp only [List.length_append, List.length_singleton]
    omega

theorem finalizeCond_length (out : List Op) (i j : Nat) : (finalizeCond out i j).length = out.length + 1 := by
  simp [finalizeCond]

theorem Settles.condTail {waiting : List Frame} {out code : List Op} {i j : Nat}
    (settles : Settles 0 waiting out code) :
    Settles 0 (waiting ++ [.condTail i j]) out (finalizeCond code i j) := by
  refine ⟨fun f member => ?_, ?_, ?_⟩
  · rcases List.mem_append.mp member with old | new
    · exact settles.waits f old
    · rw [List.mem_singleton.mp new]
      rfl
  · rw [unwind_waiting settles.waits, settles.flushed]
    rfl
  · have := settles.short
    rw [finalizeCond_length]
    omega

/-- Both placeholders of a conditional are overwritten where they stand. -/
theorem finalizeCond_layout (test thenBranch elseBranch : List Op) :
    finalizeCond (test ++ [.condIf 0] ++ thenBranch ++ [.condElse 0] ++ elseBranch) test.length
        (test.length + 1 + thenBranch.length) =
      test ++ [.condIf (test.length + 1 + thenBranch.length + 1)] ++ thenBranch ++
        [.condElse (test.length + 1 + thenBranch.length + 1 + elseBranch.length + 1)] ++ elseBranch ++ [.condEnd] := by
  simp only [finalizeCond, List.append_assoc, List.cons_append, List.nil_append]
  rw [List.set_append_right _ _ le_rfl, Nat.sub_self, List.set_cons_zero]
  rw [List.set_append_right _ _ (by omega)]
  rw [show test.length + 1 + thenBranch.length - test.length = thenBranch.length + 1 by omega, List.set_cons_succ]
  rw [List.set_append_right _ _ le_rfl, Nat.sub_self, List.set_cons_zero]
  simp only [List.length_append, List.length_cons]
  congr 6
  omega

theorem Blocks.open {level : Nat} {stack : List Frame} {frame : Frame}
    (other : ∀ f, frame ≠ .func f) (plain : ∀ op, frame ≠ .op op) : Blocks level (frame :: stack) :=
  ⟨fun f _ same => other f (List.cons.inj same).1, fun op _ same => absurd (List.cons.inj same).1 (plain op)⟩

theorem Blocks.stays {level prec : Nat} {assoc : Assoc} {stack : List Frame} (blocks : Blocks level stack)
    (looser : ∀ op : Op, (precedence op).1 ≤ 7 → (precedence op).1 < max level 1 ∨ 7 ≤ level →
      shouldPop op prec assoc = false) (out : List Op) : popWhile stack out prec assoc = (stack, out) :=
  popWhile_stays (fun op rest same => looser op (blocks.binds op rest same).1 (blocks.binds op rest same).2) out

/-- What reading the tokens of a tree, or of the arguments of a call, does. -/
def Piece.Emitted : Piece → List Token → Prop
  | .expr level e, ts => ∀ s : ParseState, s.expectOperand = true → Blocks level s.stack →
      s.out.length + (e.code s.out.length).length ≤ maxOps → Emits level s s ts (e.code s.out.length)
  | .args es, ts => ∀ (s : ParseState) f stack commas counts, s.expectOperand = true →
      s.stack = .paren :: .func f :: stack → s.argCounts = commas :: counts →
      s.out.length + (codeArgs s.out.length es).length ≤ maxOps →
      Emits 0 s { s with argCounts := (commas + (es.length - 1)) :: counts } ts (codeArgs s.out.length es)

theorem Expr.code_pos (base : Nat) (e : Expr) : 0 < (e.code base).length := by
  cases e <;> simp [Expr.code]

theorem codeArgs_pos (base : Nat) {es : List Expr} (nonempty : es ≠ []) : 0 < (codeArgs base es).length := by
  cases es with
  | nil => contradiction
  | cons e es =>
    have := e.code_pos base
    simp only [codeArgs, List.length_append]
    omega

namespace Piece

variable {e : Expr} {p : Nat} {t : Token} {ts : List Token}

theorem emitted_operand {op : Op}
    (passed : ∀ s : ParseState, s.expectOperand = true → s.token t = .ok (s.pushOperand op))
    (code : ∀ base, e.code base = [op]) : Emitted (.expr p e) [t] := by
  intro s expects _ short
  rw [code] at short ⊢
  refine ⟨[], s.out ++ [op], ?_, .nil _ _⟩
  rw [ParseState.run_token (passed s expects) (by simpa [ParseState.pushOperand] using short)]
  rfl

theorem emitted_unary {op : Op} (level : p ≤ (precedence op).1)
    (unary : t.asOperand = .unary op) (ih : Emitted (.expr (precedence op).1 e) ts) :
    Emitted (.expr p (.unary op e)) (t :: ts) := by
  intro s expects blocks short
  have prec := Token.unary_precedence unary
  simp only [prec] at level ih
  simp only [Expr.code, List.length_append, List.length_singleton] at short
  have kept : popWhile s.stack s.out 7 .right = (s.stack, s.out) :=
    blocks.stays (fun top bound _ => by simpa [shouldPop] using bound) s.out
  have pushed : s.token t = .ok { s with stack := .op op :: s.stack, expectOperand := true } := by
    rw [ParseState.token_unary expects unary]
    simp [ParseState.pushOperator, prec, kept]
  have bound : Blocks 7 (.op op :: s.stack) := by
    refine ⟨by simp, fun top rest same => ?_⟩
    cases same
    simp [prec]
  obtain ⟨waiting, out, ran, settles⟩ := ih { s with stack := .op op :: s.stack, expectOperand := true } rfl bound
    (by simp only; omega)
  refine ⟨waiting ++ [.op op], out, ?_, ?_⟩
  · rw [ParseState.run_token pushed (by simp only; omega), ran]
    simp
  · have waits : Waits p (.op op) := ⟨by simpa [prec] using level, by rintro slot rfl; simp [precedence] at prec⟩
    simpa [Expr.code] using settles.op level waits

theorem emitted_binary {op : Op} {l r : Expr} {ls rs : List Token}
    (level : p ≤ (precedence op).1) (binary : t.infixOp = some op) (ihl : Emitted (.expr (precedence op).1 l) ls)
    (ihr : Emitted (.expr ((precedence op).1 + 1) r) rs) : Emitted (.expr p (.binary op l r)) (ls ++ t :: rs) := by
  intro s expects blocks short
  obtain ⟨q, prec, positive, small⟩ := Token.infix_precedence binary
  simp only [prec] at level ihl ihr
  simp only [Expr.code, List.length_append, List.length_singleton] at short
  have tighter : Blocks q s.stack :=
    ⟨blocks.noFunc, fun top rest same => ⟨(blocks.binds top rest same).1, by have := (blocks.binds top rest same).2; omega⟩⟩
  obtain ⟨waiting, out, ran, settles⟩ := ihl s expects tighter (by omega)
  -- the operator pops what waits of its left operand and stops at the stack below
  have popped : popWhile (waiting ++ s.stack) out q .left = (s.stack, s.out ++ l.code s.out.length) := by
    rw [popWhile_waiting settles.waits _ _ positive (fun top tight => by simpa [shouldPop] using tight), settles.flushed]
    exact blocks.stays (fun top _ loose => by simp only [shouldPop, decide_eq_false_iff_not]; omega) _
  have pushed : ({ s with out := out, stack := waiting ++ s.stack, expectOperand := false } : ParseState).token t =
      .ok { s with out := s.out ++ l.code s.out.length, stack := .op op :: s.stack, expectOperand := true } := by
    rw [ParseState.token_binary rfl binary]
    simp [ParseState.pushOperator, prec, popped]
  have bound : Blocks (q + 1) (.op op :: s.stack) := by
    refine ⟨by simp, fun top rest same => ?_⟩
    cases same
    simp only [prec]
    omega
  obtain ⟨waiting', out', ran', settles'⟩ := ihr
    { s with out := s.out ++ l.code s.out.length, stack := .op op :: s.stack, expectOperand := true } rfl bound
    (by simp only [List.length_append]; omega)
  refine ⟨waiting' ++ [.op op], out', ?_, ?_⟩
  · rw [ParseState.run_append, ran]
    simp only [Except.bind]
    rw [ParseState.run_token pushed (by simp only [List.length_append]; omega), ran']
    simp
  · have waits : Waits p (.op op) := ⟨by simpa [prec] using level, by rintro slot rfl; simp [precedence] at prec; omega⟩
    simpa [Expr.code] using settles'.op (by omega : p ≤ q + 1) waits

theorem emitted_parens (ih : Emitted (.expr 0 e) ts) :
    Emitted (.expr p e) (.op .lparen :: ts ++ [.op .rparen]) := by
  intro s expects blocks short
  obtain ⟨waiting, out, ran, settles⟩ := ih { s with stack := .paren :: s.stack, expectOperand := true } rfl
    (.open (by simp) (by simp)) short
  have flushed : unwind (waiting ++ .paren :: s.stack) out = (.paren :: s.stack, s.out ++ e.code s.out.length) := by
    rw [unwind_waiting settles.waits, settles.flushed]
    rfl
  refine ⟨[], _, ?_, .nil _ _⟩
  rw [List.cons_append, ParseState.run_token (ParseState.openParen_group blocks.noFunc) (by simp only; omega),
    ParseState.run_append, ran]
  simp only [Except.bind]
  rw [ParseState.run_token (ParseState.closeParen_group flushed blocks.noFunc) (by simpa using short)]
  rfl

theorem emitted_call {f : Op} {es : List Expr}
    (function : t.asOperand = .function f) (nonempty : es ≠ []) (ih : Emitted (.args es) ts) :
    Emitted (.expr p (.call f es)) (t :: .op .lparen :: ts ++ [.op .rparen]) := by
  intro s expects blocks short
  have positive := codeArgs_pos s.out.length nonempty
  have count : 0 + (es.length - 1) + 1 = es.length := by
    have := List.length_pos_iff.mpr nonempty
    omega
  simp only [Expr.code, List.length_append, List.length_singleton] at short
  have named := ParseState.token_function expects function
  obtain ⟨waiting, out, ran, settles⟩ := ih
    ⟨s.out, .paren :: .func f :: s.stack, true, 0 :: s.argCounts, s.out.length :: s.callStarts⟩ f s.stack 0 s.argCounts
    rfl rfl rfl (by simp only; omega)
  have flushed : unwind (waiting ++ .paren :: .func f :: s.stack) out =
      (.paren :: .func f :: s.stack, s.out ++ codeArgs s.out.length es) := by
    rw [unwind_waiting settles.waits, settles.flushed]
    rfl
  have closed := ParseState.closeParen_call flushed
    (s := ⟨out, waiting ++ .paren :: .func f :: s.stack, false, (0 + (es.length - 1)) :: s.argCounts,
      s.out.length :: s.callStarts⟩) rfl rfl (by simp only [List.length_append]; omega)
  rw [count] at closed
  refine ⟨[], _, ?_, .nil _ _⟩
  rw [List.cons_append, ParseState.run_token named (by simp only; omega), List.cons_append,
    ParseState.run_token (t := .op .lparen) rfl (by simp only [ParseState.openParen]; omega), ParseState.run_append]
  simp only [ParseState.openParen, ran, Except.bind]
  rw [ParseState.run_token closed (by simp only [List.length_append, List.length_singleton]; omega)]
  simp [ParseState.run, Expr.code]

theorem emitted_cond {c t : Expr} {cs es : List Token} (ihc : Emitted (.expr 1 c) cs) (iht : Emitted (.expr 0 t) ts)
    (ihe : Emitted (.expr 0 e) es) :
    Emitted (.expr 0 (.cond c t e)) (cs ++ .op .question :: ts ++ .op .colon :: es) := by
  intro s expects blocks short
  simp only [Expr.code] at short ⊢
  generalize testEq : c.code s.out.length = test at short ⊢
  generalize thenEq : t.code (s.out.length + test.length + 1) = thenBranch at short ⊢
  generalize elseEq : e.code (s.out.length + test.length + 1 + thenBranch.length + 1) = elseBranch at short ⊢
  simp only [List.length_append, List.length_singleton] at short
  -- the state after `?` and after `:`, with placeholders for the two jumps
  let asked : ParseState := { s with
    out := s.out ++ test ++ [.condIf 0], stack := .condHead (s.out ++ test).length :: s.stack, expectOperand := true }
  let turned : ParseState := { s with
    out := s.out ++ test ++ [.condIf 0] ++ thenBranch ++ [.condElse 0],
    stack := .condTail (s.out ++ test).length ((s.out ++ test).length + 1 + thenBranch.length) :: s.stack,
    expectOperand := true }
  have askedLength : asked.out.length = s.out.length + test.length + 1 := by
    simp only [asked, List.length_append, List.length_singleton]
  have turnedLength : turned.out.length = s.out.length + test.length + 1 + thenBranch.length + 1 := by
    simp only [turned, List.length_append, List.length_singleton]
  have tighter : Blocks 1 s.stack := ⟨blocks.noFunc, fun top rest same =>
    ⟨(blocks.binds top rest same).1, (blocks.binds top rest same).2.imp_right (by omega)⟩⟩
  obtain ⟨waiting, out, ran, settles⟩ := ihc s expects tighter (by rw [testEq]; omega)
  rw [testEq] at settles
  have popped : popWhile (waiting ++ s.stack) out 0 .right = (s.stack, s.out ++ test) := by
    rw [popWhile_waiting settles.waits _ _ Nat.one_pos
      (fun top tight => by simp only [shouldPop, decide_eq_true_eq]; omega), settles.flushed]
    exact blocks.stays (fun top _ loose => by simp only [shouldPop, decide_eq_false_iff_not]; omega) _
  have question : ({ s with out := out, stack := waiting ++ s.stack, expectOperand := false } : ParseState).token
      (.op .question) = .ok asked := by
    simp [ParseState.token, ParseState.question, popped, asked]
  obtain ⟨waiting', out', ran', settles'⟩ := iht asked rfl (.open (by simp) (by simp))
    (by rw [askedLength, thenEq]; omega)
  rw [askedLength, thenEq] at settles'
  have colon : ({ asked with out := out', stack := waiting' ++ asked.stack, expectOperand := false } : ParseState).token
      (.op .colon) = .ok turned := by
    simp only [ParseState.token, ParseState.colon, asked, unwindColon_waiting settles'.waits, settles'.flushed]
    simp [unwindColon, turned]
    omega
  obtain ⟨waiting'', out'', ran'', settles''⟩ := ihe turned rfl (.open (by simp) (by simp))
    (by rw [turnedLength, elseEq]; omega)
  rw [turnedLength, elseEq] at settles''
  refine ⟨waiting'' ++ [.condTail (s.out ++ test).length ((s.out ++ test).length + 1 + thenBranch.length)], out'', ?_, ?_⟩
  · rw [List.append_assoc, ParseState.run_append, ran]
    simp only [Except.bind]
    rw [List.cons_append, ParseState.run_token question (by rw [askedLength]; omega), ParseState.run_append, ran']
    simp only [Except.bind]
    rw [ParseState.run_token colon (by rw [turnedLength]; omega), ran'']
    simp [turned]
  · have layout := finalizeCond_layout (s.out ++ test) thenBranch elseBranch
    have tail := settles''.condTail (i := (s.out ++ test).length) (j := (s.out ++ test).length + 1 + thenBranch.length)
    rw [layout] at tail
    simpa [add_assoc] using tail

theorem emitted_oneArg (ih : Emitted (.expr 0 e) ts) : Emitted (.args [e]) ts := by
  intro s f stack commas counts expects call called short
  simp only [codeArgs, List.append_nil, List.length_singleton] at short ⊢
  have same : { s with argCounts := (commas + (1 - 1)) :: counts } = s := by simp [← called]
  rw [same]
  exact ih s expects (by rw [call]; exact .open (by simp) (by simp)) short

theorem emitted_moreArgs {es : List Expr} {us : List Token} (nonempty : es ≠ [])
    (ih : Emitted (.expr 0 e) ts) (ihs : Emitted (.args es) us) : Emitted (.args (e :: es)) (ts ++ .op .comma :: us) := by
  intro s f stack commas counts expects call called short
  simp only [codeArgs, List.length_append, List.length_cons] at short ⊢
  obtain ⟨waiting, out, ran, settles⟩ := ih s expects (by rw [call]; exact .open (by simp) (by simp)) (by omega)
  let parted : ParseState := { s with
    out := s.out ++ e.code s.out.length, argCounts := (commas + 1) :: counts, expectOperand := true }
  have partedLength : parted.out.length = s.out.length + (e.code s.out.length).length := by simp [parted]
  have comma : ({ s with out := out, stack := waiting ++ s.stack, expectOperand := false } : ParseState).token
      (.op .comma) = .ok parted := by
    simp [ParseState.token, ParseState.comma, unwind_waiting settles.waits, settles.flushed, call, unwind, called, parted]
  obtain ⟨waiting', out', ran', settles'⟩ := ihs parted f stack (commas + 1) counts rfl call rfl
    (by rw [partedLength]; omega)
  refine ⟨waiting', out', ?_, ?_⟩
  · rw [ParseState.run_append, ran]
    simp only [Except.bind]
    have count : commas + 1 + (es.length - 1) = commas + (es.length + 1 - 1) := by
      have := List.length_pos_iff.mpr nonempty
      omega
    rw [ParseState.run_token comma (by rw [partedLength]; omega), ran', count]
  · simpa [parted] using settles'

end Piece

variable {ts : List Token}

theorem Renders.args_ne_nil {piece : Piece} {es : List Expr} (rendered : Renders piece ts)
    (args : piece = .args es) : es ≠ [] := by
  cases rendered with
  | oneArg | moreArgs => cases args; simp
  | _ => contradiction

theorem Renders.emitted {piece : Piece} (rendered : Renders piece ts) : piece.Emitted ts := by
  induction rendered with
  | lit literal => exact Piece.emitted_operand (fun s expects => ParseState.token_literal expects literal) fun _ => rfl
  | var => exact Piece.emitted_operand (fun s _ => rfl) fun _ => rfl
  | rndm nullary => exact Piece.emitted_operand (fun s expects => ParseState.token_rndm expects nullary) fun _ => rfl
  | parens _ ih => exact Piece.emitted_parens ih
  | unary level unary _ ih => exact Piece.emitted_unary level unary ih
  | binary level binary _ _ ihl ihr => exact Piece.emitted_binary level binary ihl ihr
  | call function _ args ih => exact Piece.emitted_call function (args.args_ne_nil rfl) ih
  | cond _ _ _ ihc iht ihe => exact Piece.emitted_cond ihc iht ihe
  | oneArg _ ih => exact Piece.emitted_oneArg ih
  | moreArgs _ args ih ihs => exact Piece.emitted_moreArgs (args.args_ne_nil rfl) ih ihs

/-- The tokens lead to a state whose pending frames complete the code. -/
def Completes (s : ParseState) (ts : List Token) (code : List Op) : Prop :=
  ∃ s', s.run ts = .ok s' ∧ s'.expectOperand = false ∧ s'.argCounts = s.argCounts ∧ s'.callStarts = s.callStarts ∧
    unwind s'.stack s'.out = ([], s.out ++ code)

theorem RendersStatement.completes {st : Statement} (rendered : RendersStatement st ts)
    (s : ParseState) (expects : s.expectOperand = true) (bare : s.stack = [])
    (short : s.out.length + (st.code s.out.length).length ≤ maxOps) : Completes s ts (st.code s.out.length) := by
  cases rendered with
  | @plain e ts rendered =>
    obtain ⟨waiting, out, ran, settles⟩ := rendered.emitted s expects ⟨by simp [bare], by simp [bare]⟩ short
    exact ⟨_, ran, rfl, rfl, rfl, by simpa [bare, Statement.code] using settles.flushed⟩
  | @assign slot e ts rendered =>
    simp only [Statement.code, List.length_append, List.length_singleton] at short ⊢
    have fetched : s.token (.arg slot) = .ok (s.pushOperand (.arg slot)) := rfl
    have stored : (s.pushOperand (.arg slot)).token (.op .assign) =
        .ok { s with stack := [.op (.store slot)], expectOperand := true } := by
      simp [ParseState.token, ParseState.assign, ParseState.pushOperand, bare]
    have blocks : Blocks 0 [.op (.store slot)] := by
      refine ⟨by simp, fun op rest same => ?_⟩
      cases same
      simp [precedence]
    obtain ⟨waiting, out, ran, settles⟩ :=
      rendered.emitted { s with stack := [.op (.store slot)], expectOperand := true } rfl blocks (by simp only; omega)
    have ran' : s.run (.arg slot :: .op .assign :: ts) =
        .ok { s with out := out, stack := waiting ++ [.op (.store slot)], expectOperand := false } := by
      rw [ParseState.run_token fetched (by simp only [ParseState.pushOperand, List.length_append, List.length_singleton]; omega),
        ParseState.run_token stored (by simp only; omega), ran]
    refine ⟨_, ran', rfl, rfl, rfl, ?_⟩
    simp only [unwind_waiting settles.waits, settles.flushed]
    simp [unwind]

/-- Statements are flushed one after the other. -/
theorem RendersAll.completes {ss : List Statement} (rendered : RendersAll ss ts) (s : ParseState)
    (expects : s.expectOperand = true) (bare : s.stack = [])
    (short : s.out.length + (codeAll s.out.length ss).length ≤ maxOps) :
    Completes s ts (codeAll s.out.length ss) := by
  induction rendered generalizing s with
  | one statement =>
    simp only [codeAll, List.append_nil] at short ⊢
    exact statement.completes s expects bare short
  | @more st ss ts us statement _ ih =>
    simp only [codeAll, List.length_append] at short ⊢
    obtain ⟨s₁, ran, operator, counts, starts, flushed⟩ := statement.completes s expects bare (by omega)
    let next : ParseState := { s with out := s.out ++ st.code s.out.length, stack := [], expectOperand := true }
    have nextLength : next.out.length = s.out.length + (st.code s.out.length).length := by simp [next]
    have semi : s₁.token (.op .semi) = .ok next := by
      simp [ParseState.token, ParseState.semi, operator, flushed, next, counts, starts]
    obtain ⟨s₂, ran', operator', counts', starts', flushed'⟩ := ih next rfl rfl (by rw [nextLength]; omega)
    refine ⟨s₂, ?_, operator', counts', starts', ?_⟩
    · rw [ParseState.run_append, ran]
      simp only [Except.bind]
      rw [ParseState.run_token semi (by rw [nextLength]; omega), ran']
    · simpa [next] using flushed'

end Spvirit.Calc
