import Spvirit.Calc.Recognition

/-! The invariant of the token loop: the compiler's state together with the scan
determines how the tokens read so far parse. -/

namespace Spvirit.Calc

/-- Some function name was not followed by its parenthesis: its frame is never popped. -/
def loose : List Frame → Bool
  | [] => false
  | .paren :: .func _ :: rest => loose rest
  | .func _ :: _ => true
  | .paren :: rest => loose rest
  | .op _ :: rest => loose rest
  | .condHead _ :: rest => loose rest
  | .condTail _ _ :: rest => loose rest

theorem loose_of_paren {stack : List Frame} (found : loose (.paren :: stack) = true) : loose stack = true := by
  cases stack with
  | nil => simp [loose] at found
  | cons frame rest => cases frame <;> simp_all [loose]

@[simp] theorem loose_popWhile (stack : List Frame) (out : List Op) (prec : Nat) (assoc : Assoc) :
    loose (popWhile stack out prec assoc).1 = loose stack := by
  induction stack generalizing out with
  | nil => simp [popWhile]
  | cons frame rest ih =>
    cases frame with
    | op top =>
      simp only [popWhile]
      split
      · rw [ih, loose]
      · rfl
    | _ => simp [popWhile]

@[simp] theorem loose_unwind (stack : List Frame) (out : List Op) : loose (unwind stack out).1 = loose stack := by
  induction stack generalizing out with
  | nil => rfl
  | cons frame rest ih => cases frame <;> simp [unwind, loose, ih]

@[simp] theorem loose_opFrames (level : List Op) (below : List Frame) :
    loose (opFrames level ++ below) = loose below := by
  induction level with
  | nil => rfl
  | cons op level ih => simpa [opFrames, loose] using ih

/-- A function name on top of the stack is not lost yet while an operand is expected. -/
def Lost (s : ParseState) : Prop := loose (if s.expectOperand then .paren :: s.stack else s.stack) = true

theorem Lost.loose {s : ParseState} (lost : Lost s) : Calc.loose s.stack = true := by
  unfold Lost at lost
  split at lost
  · exact loose_of_paren lost
  · exact lost

/-- What the compiler's state and the scan say about the tokens read so far. -/
inductive Reading (s : ParseState) (g : Scan) (ts : List Token) : Prop
  | operand {below : List Frame} {h a c : List Token} {level : List Op} (stack : s.stack = opFrames level ++ below)
      (expects : s.expectOperand = true) (opened : Opened below g.groups h) (heading : Heading (kind below) a)
      (awaits : Awaits c) (fresh : level = [] → a = [] ∧ c = []) (uncalled : g.called = none)
      (read : ts = h ++ a ++ c)
  | operator {below : List Frame} {h a c : List Token} {level : List Op} (stack : s.stack = opFrames level ++ below)
      (expects : s.expectOperand = false) (opened : Opened below g.groups h) (heading : Heading (kind below) a)
      (chain : Parses .chain c) (fresh : level = [] → a = [] ∧ Parses .primary c) (last : g.last = ts.getLast?)
      (read : ts = h ++ a ++ c)
  | called {below : List Frame} {h a c : List Token} {level : List Op} {t : Token} {f : Op}
      (stack : s.stack = .func f :: (opFrames level ++ below)) (expects : s.expectOperand = true)
      (opened : Opened below g.groups h) (heading : Heading (kind below) a) (awaits : Awaits c)
      (fresh : level = [] → a = [] ∧ c = []) (function : t.asOperand = .function f) (last : g.last = some t)
      (read : ts = h ++ a ++ c ++ [t])
  | lost (lost : Lost s)

theorem ParseState.pushOperator_level {s : ParseState} {below : List Frame} {level : List Op} (op : Op)
    (stack : s.stack = opFrames level ++ below) (head : ∀ op rest, below ≠ .op op :: rest) :
    ∃ rest, (s.pushOperator op).stack = opFrames (op :: rest) ++ below := by
  obtain ⟨rest, popped⟩ := popWhile_level head level s.out (precedence op).1 (precedence op).2
  exact ⟨rest, by rw [← stack] at popped; simp [pushOperator, popped, opFrames]⟩

@[simp] theorem ParseState.openParen_stack (s : ParseState) : s.openParen.stack = .paren :: s.stack := by
  unfold openParen
  split <;> rfl

@[simp] theorem ParseState.openParen_expectOperand (s : ParseState) : s.openParen.expectOperand = true := by
  unfold openParen
  split <;> rfl

theorem ParseState.closeParen_cases {s s' : ParseState} (closed : s.closeParen = .ok s') :
    s'.expectOperand = false ∧
      ((∃ f, (unwind s.stack s.out).1 = .paren :: .func f :: s'.stack) ∨
        ((unwind s.stack s.out).1 = .paren :: s'.stack ∧ ∀ f rest, s'.stack ≠ .func f :: rest)) := by
  unfold closeParen at closed
  split at closed
  · next f stack out flushed =>
    split at closed
    · contradiction
    · cases closed
      exact ⟨rfl, Or.inl ⟨f, by rw [flushed]⟩⟩
  · next stack out other flushed =>
    cases closed
    exact ⟨rfl, Or.inr ⟨by rw [flushed], fun f rest same => other f rest same⟩⟩
  · contradiction
  · contradiction

theorem Parses.eq_arg {c : List Token} {slot : Slot} (primary : Parses .primary c)
    (last : c.getLast? = some (.arg slot)) : c = [.arg slot] := by
  cases primary with
  | atom => simpa using last
  | group | call => simp [List.getLast?_cons, List.getLast?_append] at last

theorem Parses.ne_nil {cat : Category} {ts : List Token} (parsed : Parses cat ts) : ts ≠ [] := by
  induction parsed <;> simp_all

theorem loose_of_condHeads {stack : List Frame}
    (bare : stack.all (fun f => match f with | .condHead _ => true | _ => false) = true) : loose stack = false := by
  induction stack with
  | nil => rfl
  | cons frame rest ih => cases frame <;> simp_all [loose]

namespace Reading

variable {s s' : ParseState} {g : Scan} {ts : List Token} {t : Token}

theorem level {opens : Bool} {groups : List (Option (Op × Nat))} {sym : Sym} (expects : s.expectOperand = true)
    (opened : Opened s.stack groups ts) : Reading s ⟨opens, groups, some (.op sym)⟩ ts :=
  .operand (show s.stack = opFrames [] ++ s.stack from rfl) expects opened (.none _) .nil (fun _ => ⟨rfl, rfl⟩)
    (Scan.called_eq_none (Token.sym_not_function _)) (by simp)

variable (reading : Reading s g ts)

include reading

theorem atom {op : Op} (expects : s.expectOperand = true) (atom : t.asOperand = .atom) :
    Reading (s.pushOperand op) ⟨false, g.groups, some t⟩ (ts ++ [t]) := by
  cases reading with
  | operand stack _ opened heading awaits fresh _ read =>
    refine .operator stack rfl opened heading (awaits [t] (.operand (.atom atom))) ?_ (by simp) (by simp [read])
    intro bare
    obtain ⟨rfl, rfl⟩ := fresh bare
    exact ⟨rfl, .atom atom⟩
  | operator _ expects' => simp [expects] at expects'
  | called stack => exact .lost (by simp [Lost, ParseState.pushOperand, stack, loose])
  | lost lost => exact .lost lost.loose

theorem unary {found : Op} (op : Op) (expects : s.expectOperand = true) (unary : t.asOperand = .unary found) :
    Reading (s.pushOperator op) ⟨true, g.groups, some t⟩ (ts ++ [t]) := by
  cases reading with
  | operand stack _ opened heading awaits fresh _ read =>
    obtain ⟨rest, pushed⟩ := ParseState.pushOperator_level op stack opened.head.1
    exact .operand pushed rfl opened heading (awaits.unary unary) (by simp) (by simp [Scan.called, unary])
      (by simp [read])
  | operator _ expects' => simp [expects] at expects'
  | called stack => exact .lost (by simp [Lost, ParseState.pushOperator, stack, loose])
  | lost lost => exact .lost (by simp [Lost, ParseState.pushOperator, loose, lost.loose])

theorem binary {found : Op} (op : Op) (expects : s.expectOperand = false) (binary : t.infixOp = some found) :
    Reading (s.pushOperator op) ⟨true, g.groups, some t⟩ (ts ++ [t]) := by
  cases reading with
  | operand _ expects' | called _ expects' => simp [expects] at expects'
  | operator stack _ opened heading chain _ _ read =>
    obtain ⟨rest, pushed⟩ := ParseState.pushOperator_level op stack opened.head.1
    refine .operand pushed rfl opened heading (.binary chain binary) (by simp) ?_ (by simp [read])
    exact Scan.called_eq_none fun _ => Token.infixOp_not_function binary
  | lost lost => exact .lost (by simp [Lost, ParseState.pushOperator, loose, lost.loose])

theorem function {f : Op} (expects : s.expectOperand = true) (function : t.asOperand = .function f) :
    Reading { s with stack := .func f :: s.stack, expectOperand := true } ⟨true, g.groups, some t⟩ (ts ++ [t]) := by
  cases reading with
  | operand stack _ opened heading awaits fresh _ read =>
    exact .called (by rw [stack]) rfl opened heading awaits fresh function rfl (by simp [read])
  | operator _ expects' => simp [expects] at expects'
  | called stack => exact .lost (by simp [Lost, stack, loose])
  | lost lost => exact .lost (by simp [Lost, loose, lost.loose])

theorem openParen (expects : s.expectOperand = true) :
    Reading s.openParen ⟨true, (g.called.map fun f => (f, 0)) :: g.groups, some (.op .lparen)⟩ (ts ++ [.op .lparen]) := by
  cases reading with
  | operand stack _ opened heading awaits fresh uncalled read =>
    refine level s.openParen_expectOperand ?_
    rw [s.openParen_stack, stack, uncalled, read]
    exact .group opened heading awaits fresh
  | operator _ expects' => simp [expects] at expects'
  | @called _ h a c _ t f stack _ opened heading awaits fresh function last read =>
    refine level s.openParen_expectOperand ?_
    have shape : ts ++ [.op .lparen] = h ++ a ++ c ++ [t, .op .lparen] ++ [] := by simp [read]
    rw [s.openParen_stack, stack, shape]
    simp only [Scan.called, last, Option.map_some, function]
    exact .call opened heading awaits fresh function .none
  | lost lost =>
    refine .lost ?_
    simp only [Lost, expects, if_true] at lost
    simpa [Lost, s.openParen_stack, s.openParen_expectOperand, loose] using lost

/-- The expression read in the current level when a frame further out is reached. -/
theorem unwound (expects : s.expectOperand = false) {stack : List Frame}
    (frames : (unwind s.stack s.out).1 = stack) :
    loose stack = true ∨ ∃ h y, Opened stack g.groups h ∧ Parses (kind stack) y ∧ ts = h ++ y := by
  subst frames
  cases reading with
  | operand _ expects' | called _ expects' => simp [expects] at expects'
  | @operator _ _ a c level stack _ opened heading chain _ _ read =>
    obtain ⟨h', y, opened', complete, same⟩ := opened.unwind (heading.complete (.expr chain)) (s.out ++ level)
    rw [stack, unwind_level]
    exact Or.inr ⟨h', y, opened', complete, by rw [read, ← same, List.append_assoc]⟩
  | lost lost => exact Or.inl (by simpa using lost.loose)

theorem closeParen {g' : Scan} (expects : s.expectOperand = false)
    (closed : s.closeParen = .ok s') (scanned : g.token (.op .rparen) = some g') :
    Reading s' g' (ts ++ [.op .rparen]) := by
  obtain ⟨operator, ⟨f, frames⟩ | ⟨frames, plain⟩⟩ := ParseState.closeParen_cases closed
  · rcases reading.unwound expects frames with found | ⟨h, y, opened, complete, read⟩
    · exact .lost (by simpa [Lost, operator, loose] using found)
    · obtain ⟨below, groups, h', a, c, as, level, t, n, stack, gathered, rfl, opened, heading, awaits, fresh, function,
        supplied⟩ := opened.call_inv
      simp only [Scan.token, gathered] at scanned
      split at scanned
      · simp_all
      · next f' commas groups' _ same =>
        simp only [List.cons.injEq, Option.some.injEq, Prod.mk.injEq] at same
        obtain ⟨⟨rfl, rfl⟩, rfl⟩ := same
        split at scanned
        · next takes =>
          cases scanned
          have call := Parses.call function takes (supplied.close complete)
          refine .operator stack operator opened heading (awaits _ (.operand call)) ?_ (by simp) (by simp [read])
          intro bare
          obtain ⟨rfl, rfl⟩ := fresh bare
          exact ⟨rfl, call⟩
        · contradiction
      · contradiction
  · rcases reading.unwound expects frames with found | ⟨h, y, opened, complete, read⟩
    · exact .lost (by simpa [Lost, operator] using loose_of_paren found)
    · obtain ⟨below, groups, h', a, c, level, stack, gathered, rfl, opened, heading, awaits, fresh⟩ :=
        opened.group_inv plain
      simp only [Scan.token, gathered] at scanned
      split at scanned
      · next same =>
        cases same
        cases scanned
        have group := Parses.group complete
        refine .operator stack operator opened heading (awaits _ (.operand group)) ?_ (by simp) (by simp [read])
        intro bare
        obtain ⟨rfl, rfl⟩ := fresh bare
        exact ⟨rfl, group⟩
      · simp_all
      · contradiction

theorem comma {g' : Scan} (expects : s.expectOperand = false)
    (passed : s.comma = .ok s') (scanned : g.token (.op .comma) = some g') : Reading s' g' (ts ++ [.op .comma]) := by
  unfold ParseState.comma at passed
  split at passed
  · next stack out flushed =>
    have frames : (unwind s.stack s.out).1 = .paren :: stack := by rw [flushed]
    split at passed
    · cases passed
      rcases reading.unwound expects frames with found | ⟨h, y, opened, complete, read⟩
      · exact .lost (by simpa [Lost, loose] using found)
      · simp only [Scan.token] at scanned
        split at scanned
        · next f commas groups _ gathered =>
          cases scanned
          refine level rfl ?_
          rw [gathered] at opened
          cases opened with
          | @call below _ h a c as level t _ _ opened heading awaits fresh function supplied =>
            have more := Opened.call opened heading awaits fresh function (.some (supplied.close complete))
            simpa [read] using more
        · contradiction
    · contradiction
  · contradiction
  · contradiction

theorem question (passed : s.question = .ok s') :
    Reading s' ⟨true, g.groups, some (.op .question)⟩ (ts ++ [.op .question]) := by
  unfold ParseState.question at passed
  split at passed
  · contradiction
  rename_i expects
  cases passed
  cases reading with
  | operand _ expects' | called _ expects' => exact absurd expects' expects
  | @operator below h a c pending stack _ opened heading chain _ _ read =>
    obtain ⟨rest, popped⟩ := popWhile_level opened.head.1 pending s.out 0 .right
    refine level rfl ?_
    simp only [stack, popped, read]
    exact .question opened heading chain
  | lost lost => exact .lost (by simp [Lost, loose, lost.loose])

theorem colon (passed : s.colon = .ok s') :
    Reading s' ⟨true, g.groups, some (.op .colon)⟩ (ts ++ [.op .colon]) := by
  unfold ParseState.colon at passed
  split at passed
  · contradiction
  rename_i expects
  split at passed
  · next i stack out held flushed =>
    cases passed
    have frames : (unwind s.stack s.out).1 = .condHead i :: stack := by
      rw [← unwindColon_frames s.stack s.out s.out [], flushed]
    rcases reading.unwound (by simpa using expects) frames with found | ⟨h, y, opened, complete, read⟩
    · refine .lost ?_
      simp only [Lost, if_true, loose] at found ⊢
      exact (loose_opFrames held stack).trans found
    · obtain ⟨below, h', a, c, level, rfl, rfl, opened, heading, chain⟩ := opened.question_inv
      refine Reading.level rfl ?_
      have regrouped : held.map Frame.op ++ (opFrames level ++ below) = opFrames (held ++ level) ++ below := by
        simp [opFrames]
      simp only [regrouped, read]
      exact .colon opened heading chain complete
  · contradiction

theorem semi (passed : s.semi = .ok s') :
    Reading s' ⟨true, g.groups, some (.op .semi)⟩ (ts ++ [.op .semi]) := by
  unfold ParseState.semi at passed
  split at passed
  · contradiction
  rename_i expects
  split at passed
  · next out flushed =>
    cases passed
    have frames : (unwind s.stack s.out).1 = [] := by rw [flushed]
    rcases reading.unwound (by simpa using expects) frames with found | ⟨h, y, opened, complete, read⟩
    · simp [loose] at found
    · obtain ⟨groups, program⟩ := opened.program complete
      refine level rfl ?_
      simp only [groups, read]
      exact .next program
  · contradiction
  · contradiction

theorem assign {slot : Slot} (passed : s.assign = .ok s') (last : g.last = some (.arg slot)) :
    Reading s' ⟨true, g.groups, some (.op .assign)⟩ (ts ++ [.op .assign]) := by
  unfold ParseState.assign at passed
  split at passed
  · contradiction
  rename_i expects
  split at passed
  · next bare =>
    split at passed
    · next target _ =>
      cases passed
      cases reading with
      | operand _ expects' | called _ expects' => exact absurd expects' expects
      | @operator below h a c level stack _ opened heading chain fresh last' read =>
        have top : level = [] := by
          cases level with
          | nil => rfl
          | cons op level => simp [stack, opFrames] at bare
        obtain ⟨rfl, primary⟩ := fresh top
        have single : c = [.arg slot] := by
          refine primary.eq_arg ?_
          rw [last, read, List.getLast?_append_of_ne_nil _ primary.ne_nil] at last'
          exact last'.symm
        have statement : kind below = .statement := by
          cases below with
          | nil => rfl
          | cons frame rest => cases frame <;> simp_all [kind, opFrames]
        refine .operand (show _ = opFrames [.store target] ++ below by simp [stack, top, opFrames]) rfl opened
          (a := [.arg slot, .op .assign]) (by rw [statement]; exact .assign slot) .nil (by simp)
          (Scan.called_eq_none (Token.sym_not_function _)) (by simp [read, single])
      | lost lost =>
        have found := lost.loose
        rw [loose_of_condHeads bare] at found
        contradiction
    · contradiction
  · contradiction

theorem ident {name : String} (passed : s.ident name = .ok s') :
    Reading s' ⟨¬ ((constant name).isSome ∨ (nullaryOp name).isSome), g.groups, some (.ident name)⟩
      (ts ++ [.ident name]) := by
  unfold ParseState.ident at passed
  split at passed
  · next v named =>
    split at passed
    · next expects =>
      cases passed
      have isAtom : (Token.ident name).asOperand = .atom := by simp [Token.asOperand, named]
      simpa [named] using reading.atom expects isAtom
    · contradiction
  · next unnamed =>
    split at passed
    · next op nullary =>
      split at passed
      · next expects =>
        cases passed
        have isAtom : (Token.ident name).asOperand = .atom := by simp [Token.asOperand, nullary]
        simpa [nullary] using reading.atom expects isAtom
      · contradiction
    · next notNullary =>
      split at passed
      · next op word =>
        split at passed
        · next position =>
          cases passed
          by_cases negates : op = .notB
          · have isUnary : (Token.ident name).asOperand = .unary op := by
              simp [Token.asOperand, unnamed, notNullary, word, negates]
            simpa [unnamed, notNullary] using
              reading.unary op (by simpa [negates] using position.symm) isUnary
          · have isBinary : (Token.ident name).infixOp = some op := by simp [Token.infixOp, word, negates]
            simpa [unnamed, notNullary] using
              reading.binary op (by simpa [negates] using position.symm) isBinary
        · contradiction
      · next notWord =>
        split at passed
        · next expects =>
          cases found : identToOp name with
          | error e => simp [found, bind, Except.bind] at passed
          | ok f =>
            simp only [found, bind, Except.bind, Except.ok.injEq] at passed
            subst passed
            have isFunction : (Token.ident name).asOperand = .function f := by
              simp [Token.asOperand, unnamed, notNullary, notWord, found]
            simpa [unnamed, notNullary] using reading.function expects isFunction
        · contradiction

end Reading

end Spvirit.Calc
