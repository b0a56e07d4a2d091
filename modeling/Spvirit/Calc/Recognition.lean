import Spvirit.Calc.Scan

/-! What the frames on the operator stack say about the tokens read so far. -/

namespace Spvirit.Calc

def opFrames (level : List Op) : List Frame := level.map .op

/-- What must stand between the innermost frame and the current token. -/
def kind : List Frame → Category
  | [] | .condHead _ :: _ => .statement
  | _ => .expr

/-- A statement may start with an assignment. -/
inductive Heading : Category → List Token → Prop
  | none (cat : Category) : Heading cat []
  | assign (slot : Slot) : Heading .statement [.arg slot, .op .assign]

/-- An unfinished chain: any operand completes it. -/
def Awaits (c : List Token) : Prop := ∀ o, Parses .operand o → Parses .chain (c ++ o)

/-- The complete arguments read so far of a call, with a comma after each. -/
inductive Supplied : Nat → List Token → Prop
  | none : Supplied 0 []
  | some {n : Nat} {as : List Token} : Parses (.args n) as → Supplied n (as ++ [.op .comma])

/-- The frames below the current level, the open groups and the tokens before
the level. Operators pending in an outer level stand between its frames. -/
inductive Opened : List Frame → List (Option (Op × Nat)) → List Token → Prop
  | start : Opened [] [] []
  | next {p : List Token} : Parses .program p → Opened [] [] (p ++ [.op .semi])
  | group {below : List Frame} {groups : List (Option (Op × Nat))} {h a c : List Token} {level : List Op} :
      Opened below groups h → Heading (kind below) a → Awaits c → (level = [] → a = [] ∧ c = []) →
      Opened (.paren :: (opFrames level ++ below)) (none :: groups) (h ++ a ++ c ++ [.op .lparen])
  | call {below : List Frame} {groups : List (Option (Op × Nat))} {h a c as : List Token} {level : List Op} {t : Token}
      {f : Op} {n : Nat} :
      Opened below groups h → Heading (kind below) a → Awaits c → (level = [] → a = [] ∧ c = []) →
      t.asOperand = .function f → Supplied n as →
      Opened (.paren :: .func f :: (opFrames level ++ below)) (some (f, n) :: groups)
        (h ++ a ++ c ++ [t, .op .lparen] ++ as)
  | question {below : List Frame} {groups : List (Option (Op × Nat))} {h a c : List Token} {level : List Op} {i : Nat} :
      Opened below groups h → Heading (kind below) a → Parses .chain c →
      Opened (.condHead i :: (opFrames level ++ below)) groups (h ++ a ++ c ++ [.op .question])
  | colon {below : List Frame} {groups : List (Option (Op × Nat))} {h a c s : List Token} {level : List Op} {i j : Nat} :
      Opened below groups h → Heading (kind below) a → Parses .chain c → Parses .statement s →
      Opened (.condTail i j :: (opFrames level ++ below)) groups
        (h ++ a ++ c ++ [.op .question] ++ s ++ [.op .colon])

theorem kind_cases (frames : List Frame) : kind frames = .statement ∨ kind frames = .expr := by
  unfold kind
  split <;> simp

theorem Heading.complete {frames : List Frame} {a e : List Token} (heading : Heading (kind frames) a)
    (expr : Parses .expr e) : Parses (kind frames) (a ++ e) := by
  generalize same : kind frames = cat at heading
  cases heading with
  | none =>
    rcases kind_cases frames with statement | plain
    · rw [← same, statement]
      exact .statement expr
    · rw [← same, plain]
      exact expr
  | assign slot => exact .assign expr

theorem Awaits.nil : Awaits [] := fun _ operand => .single operand

theorem Awaits.unary {c : List Token} {t : Token} {op : Op} (awaits : Awaits c) (unary : t.asOperand = .unary op) :
    Awaits (c ++ [t]) := by
  intro o operand
  simpa using awaits (t :: o) (.unary unary operand)

theorem Awaits.binary {c : List Token} {t : Token} {op : Op} (chain : Parses .chain c) (binary : t.infixOp = some op) :
    Awaits (c ++ [t]) := by
  intro o operand
  simpa using Parses.binary chain binary operand

theorem Supplied.close {n : Nat} {as e : List Token} (supplied : Supplied n as) (expr : Parses .expr e) :
    Parses (.args (n + 1)) (as ++ e) := by
  cases supplied with
  | none => exact .oneArg expr
  | some args => simpa using Parses.moreArgs args expr

/-- A pending operator or the name of a function is never the frame a level opens with. -/
theorem Opened.head {frames : List Frame} {groups : List (Option (Op × Nat))} {h : List Token}
    (opened : Opened frames groups h) :
    (∀ op rest, frames ≠ .op op :: rest) ∧ ∀ f rest, frames ≠ .func f :: rest := by
  cases opened <;> simp

theorem popWhile_level {below : List Frame} (head : ∀ op rest, below ≠ .op op :: rest) (level : List Op) (out : List Op)
    (prec : Nat) (assoc : Assoc) :
    ∃ rest, (popWhile (opFrames level ++ below) out prec assoc).1 = opFrames rest ++ below := by
  induction level generalizing out with
  | nil =>
    refine ⟨[], ?_⟩
    cases below with
    | nil => simp [opFrames, popWhile]
    | cons frame rest => cases frame <;> simp_all [opFrames, popWhile]
  | cons op level ih =>
    simp only [opFrames, List.map_cons, List.cons_append, popWhile]
    split
    · exact ih _
    · exact ⟨op :: level, rfl⟩

theorem unwind_level (level : List Op) (below : List Frame) (out : List Op) :
    unwind (opFrames level ++ below) out = unwind below (out ++ level) := by
  induction level generalizing out with
  | nil => simp [opFrames]
  | cons op level ih => simpa [opFrames, unwind] using ih (out ++ [op])

theorem unwindColon_frames (frames : List Frame) (out other held : List Op) :
    (unwindColon frames out held).1 = (unwind frames other).1 := by
  induction frames generalizing out other held with
  | nil => rfl
  | cons frame rest ih =>
    cases frame with
    | op top => cases top <;> simp only [unwindColon, unwind] <;> exact ih _ _ _
    | condTail i j => exact ih _ _ _
    | paren | condHead _ => rfl
    | func f => rfl

/-- Unwinding finishes the expressions of the pending conditionals: what was
read since the frame it stops at is complete. -/
theorem Opened.unwind {below : List Frame} {groups : List (Option (Op × Nat))} {h x : List Token}
    (opened : Opened below groups h) (complete : Parses (kind below) x) (out : List Op) :
    ∃ h' y, Opened (Calc.unwind below out).1 groups h' ∧ Parses (kind (Calc.unwind below out).1) y ∧
      h ++ x = h' ++ y := by
  induction opened generalizing x out with
  | start => exact ⟨[], x, .start, complete, rfl⟩
  | next program => exact ⟨_, x, .next program, complete, rfl⟩
  | group opened heading awaits fresh _ => exact ⟨_, x, .group opened heading awaits fresh, complete, rfl⟩
  | call opened heading awaits fresh function supplied _ =>
    exact ⟨_, x, .call opened heading awaits fresh function supplied, complete, rfl⟩
  | question opened heading chain _ => exact ⟨_, x, .question opened heading chain, complete, rfl⟩
  | @colon below groups h a c s level i j opened heading chain statement ih =>
    have expr : Parses .expr (c ++ .op .question :: s ++ .op .colon :: x) := .cond chain statement complete
    obtain ⟨h', y, opened', complete', same⟩ := ih (heading.complete expr) (finalizeCond out i j ++ level)
    simp only [Calc.unwind, unwind_level]
    exact ⟨h', y, opened', complete', by simpa using same⟩

theorem opFrames_head {below : List Frame} {level : List Op} {f : Op} {rest : List Frame}
    (same : opFrames level ++ below = .func f :: rest) : below = .func f :: rest := by
  cases level with
  | nil => exact same
  | cons op level => simp [opFrames] at same

section

variable {stack : List Frame} {groups : List (Option (Op × Nat))} {h : List Token}

theorem Opened.call_inv {f : Op} (opened : Opened (.paren :: .func f :: stack) groups h) :
    ∃ below groups' h' a c as level t n, stack = opFrames level ++ below ∧ groups = some (f, n) :: groups' ∧
      h = h' ++ a ++ c ++ [t, .op .lparen] ++ as ∧ Opened below groups' h' ∧ Heading (kind below) a ∧ Awaits c ∧
      (level = [] → a = [] ∧ c = []) ∧ t.asOperand = .function f ∧ Supplied n as := by
  generalize same : Frame.func f :: stack = rest at opened
  cases opened with
  | group opened => exact absurd (opFrames_head same.symm) (opened.head.2 _ _)
  | call opened heading awaits fresh function supplied =>
    cases same
    exact ⟨_, _, _, _, _, _, _, _, _, rfl, rfl, rfl, opened, heading, awaits, fresh, function, supplied⟩

theorem Opened.group_inv (plain : ∀ f rest, stack ≠ .func f :: rest) (opened : Opened (.paren :: stack) groups h) :
    ∃ below groups' h' a c level, stack = opFrames level ++ below ∧ groups = none :: groups' ∧
      h = h' ++ a ++ c ++ [.op .lparen] ∧ Opened below groups' h' ∧ Heading (kind below) a ∧ Awaits c ∧
      (level = [] → a = [] ∧ c = []) := by
  cases opened with
  | group opened heading awaits fresh => exact ⟨_, _, _, _, _, _, rfl, rfl, rfl, opened, heading, awaits, fresh⟩
  | call => exact absurd rfl (plain _ _)

theorem Opened.question_inv {i : Nat} (opened : Opened (.condHead i :: stack) groups h) :
    ∃ below h' a c level, stack = opFrames level ++ below ∧ h = h' ++ a ++ c ++ [.op .question] ∧
      Opened below groups h' ∧ Heading (kind below) a ∧ Parses .chain c := by
  cases opened with
  | question opened heading chain => exact ⟨_, _, _, _, _, rfl, rfl, opened, heading, chain⟩

/-- Statements read before the current one make a program with it. -/
theorem Opened.program {s : List Token} (opened : Opened [] groups h) (statement : Parses .statement s) :
    groups = [] ∧ Parses .program (h ++ s) := by
  cases opened with
  | start => exact ⟨rfl, .program statement⟩
  | next program => exact ⟨rfl, by simpa using Parses.sequence program statement⟩

end

end Spvirit.Calc
