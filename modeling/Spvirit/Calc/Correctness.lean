import Spvirit.Calc.Emission
import Spvirit.Calc.CodeRuns
import Spvirit.Calc.Spelling

/-! Compiling any text of a calculation and running the result evaluates it. -/

namespace Spvirit.Calc

theorem RendersAll.mem {ss : List Statement} {ts : List Token} (rendered : RendersAll ss ts) :
    ∀ s ∈ ss, ∃ us, RendersStatement s us := by
  induction rendered with
  | one statement => simpa using ⟨_, statement⟩
  | more statement _ ih => simpa using ⟨⟨_, statement⟩, ih⟩

/-- How many values a statement leaves. -/
def Statement.width : Statement → Nat
  | .assign _ _ => 0
  | .plain _ => 1

theorem checkSegment_store {ops : List Op} {i stop depth : Nat} {slot : Slot} (inside : i < stop)
    (here : ops[i]? = some (.store slot)) :
    checkSegment ops i stop (depth + 1) = checkSegment ops (i + 1) stop depth := by
  rw [checkSegment, dif_pos inside, here]
  simp

theorem RendersStatement.checks {st : Statement} {ts : List Token} (rendered : RendersStatement st ts) {ops : List Op}
    {base : Nat} (code : CodeAt ops base (st.code base)) (stop depth : Nat)
    (fits : base + (st.code base).length ≤ stop) :
    checkSegment ops base stop depth = checkSegment ops (base + (st.code base).length) stop (depth + st.width) := by
  cases rendered with
  | plain rendered => exact rendered.checks code stop depth fits
  | assign rendered =>
    simp only [Statement.code, List.length_append, List.length_singleton] at code fits ⊢
    have value := rendered.checks code.left stop depth (by simp only [Piece.code]; omega)
    simp only [Piece.code, Piece.width] at value
    rw [value]
    exact checkSegment_store (by omega) code.right.here

theorem checks_all {ss : List Statement} (rendered : ∀ s ∈ ss, ∃ us, RendersStatement s us) {ops : List Op} {base : Nat}
    (code : CodeAt ops base (codeAll base ss)) (stop depth : Nat) (fits : base + (codeAll base ss).length ≤ stop) :
    checkSegment ops base stop depth =
      checkSegment ops (base + (codeAll base ss).length) stop (depth + (ss.map Statement.width).sum) := by
  induction ss generalizing base depth with
  | nil => simp [codeAll]
  | cons s ss ih =>
    obtain ⟨⟨us, statement⟩, rest⟩ := List.forall_mem_cons.mp rendered
    simp only [codeAll, List.length_append, List.map_cons, List.sum_cons] at code fits ⊢
    rw [statement.checks code.left stop depth (by omega), ih rest code.right _ (by omega)]
    simp only [add_assoc]

theorem Calculation.width (c : Calculation) : (c.statements.map Statement.width).sum = 1 := by
  have none : ∀ l : List (Slot × Expr), ((l.map fun a => Statement.assign a.1 a.2).map Statement.width).sum = 0 := by
    intro l
    induction l with
    | nil => rfl
    | cons a l ih => simpa [Statement.width] using ih
  rw [statements, List.map_append, List.sum_append, none, List.map_cons, List.sum_cons, none]
  rfl

theorem Calculation.checkArity {c : Calculation} {ts : List Token} (rendered : RendersAll c.statements ts) :
    Calc.checkArity (codeAll 0 c.statements) = .ok () := by
  have whole : CodeAt (codeAll 0 c.statements) 0 (codeAll 0 c.statements) := ⟨[], [], by simp, rfl⟩
  have check := checks_all rendered.mem whole (codeAll 0 c.statements).length 0 (by omega)
  rw [c.width, Nat.zero_add, checkSegment_end] at check
  simp [Calc.checkArity, check, bind, Except.bind]

theorem Calculation.compileTokens {c : Calculation} {ts : List Token} (rendered : RendersAll c.statements ts)
    (short : (codeAll 0 c.statements).length ≤ maxOps) :
    Calc.compileTokens ts = .ok (codeAll 0 c.statements) := by
  obtain ⟨s, ran, operator, -, -, flushed⟩ := rendered.completes .init rfl rfl (by simpa [ParseState.init] using short)
  simp only [ParseState.init, List.nil_append, List.length_nil] at flushed
  simp [Calc.compileTokens, ran, finishParse, flushed, operator, Nat.not_lt.mpr short, checkArity rendered, bind,
    Except.bind]

section

variable {V : Type} [F64 V] (draws : Nat → V)

/-- The effect of a statement on the machine, its position apart. -/
def Statement.run : Statement → List V × (Slot → V) × Nat → List V × (Slot → V) × Nat
  | .assign slot e, (stack, args, drawn) =>
    (stack, Function.update args slot (e.eval args draws drawn).1, (e.eval args draws drawn).2)
  | .plain e, (stack, args, drawn) => ((e.eval args draws drawn).1 :: stack, args, (e.eval args draws drawn).2)

variable {ops : List Op}

theorem RendersStatement.lands {st : Statement} {ts : List Token} (rendered : RendersStatement st ts) {base : Nat}
    (code : CodeAt ops base (st.code base)) (s : List V × (Slot → V) × Nat) :
    Machine.Lands draws ops ⟨base, s.1, s.2.1, s.2.2⟩
      ⟨base + (st.code base).length, (st.run draws s).1, (st.run draws s).2.1, (st.run draws s).2.2⟩ := by
  obtain ⟨stack, args, drawn⟩ := s
  cases rendered with
  | plain rendered => exact rendered.lands code stack args drawn
  | assign rendered =>
    simp only [Statement.code, List.length_append, List.length_singleton] at code ⊢
    exact (rendered.lands code.left stack args drawn).trans
      (Machine.lands_single code.right.here rfl (Nat.lt_succ_self _))

theorem lands_all {ss : List Statement} (rendered : ∀ s ∈ ss, ∃ us, RendersStatement s us) {base : Nat}
    (code : CodeAt ops base (codeAll base ss)) (s : List V × (Slot → V) × Nat) :
    let final := ss.foldl (fun s st => st.run draws s) s
    Machine.Lands draws ops ⟨base, s.1, s.2.1, s.2.2⟩
      ⟨base + (codeAll base ss).length, final.1, final.2.1, final.2.2⟩ := by
  induction ss generalizing base s with
  | nil => exact ⟨[], .refl _, .nil le_rfl⟩
  | cons st ss ih =>
    obtain ⟨⟨us, statement⟩, rest⟩ := List.forall_mem_cons.mp rendered
    simp only [codeAll, List.length_append, List.foldl_cons, ← add_assoc] at code ⊢
    exact (statement.lands draws code.left s).trans (ih rest code.right _)

variable {draws}

theorem foldl_assigns (l : List (Slot × Expr)) (stack : List V) (args : Slot → V) (drawn : Nat) :
    (l.map fun a => Statement.assign a.1 a.2).foldl (fun s st => st.run draws s) (stack, args, drawn) =
      (stack, Calculation.assignAll draws l args drawn) := by
  induction l generalizing args drawn with
  | nil => rfl
  | cons a l ih => exact ih _ _

theorem Calculation.foldl_run (c : Calculation) (args : Slot → V) :
    c.statements.foldl (fun s st => st.run draws s) ([], args, 0) =
      ([(c.eval args draws).1], (c.eval args draws).2) := by
  rw [statements, List.foldl_append, foldl_assigns, List.foldl_cons]
  exact foldl_assigns c.after _ _ _

variable (draws) in
theorem Calculation.eval_code {c : Calculation} {ts : List Token} (rendered : RendersAll c.statements ts)
    (args : Slot → V) : Calc.eval (codeAll 0 c.statements) args draws = some (c.eval args draws) := by
  have whole : CodeAt (codeAll 0 c.statements) 0 (codeAll 0 c.statements) := ⟨[], [], by simp, rfl⟩
  obtain ⟨visited, run, rising⟩ := lands_all draws rendered.mem whole ([], args, 0)
  simp only [c.foldl_run, Nat.zero_add] at run rising
  have looped := run.loop_eq (by simp [Machine.halted]) (by simpa using rising.length_le)
  simp [Calc.eval, Machine.run, looped]

end

/-- Every text of a calculation whose code is short enough compiles, and the
program computes what the tree does, whatever the operators compute. -/
theorem compile_evaluates {c : Calculation} {ts : List Token} {src : String} (rendered : RendersAll c.statements ts)
    (spelled : Spelled ts src.toUTF8.data.toList) (short : (codeAll 0 c.statements).length ≤ maxOps) :
    ∃ ops, compile src = .ok ops ∧ ∀ (V : Type) [F64 V] (args : Slot → V) (draws : Nat → V),
      eval ops args draws = some (c.eval args draws) := by
  refine ⟨codeAll 0 c.statements, ?_, fun V _ args draws => c.eval_code draws rendered args⟩
  simp only [compile, lex, spelled.lexFrom, bind, Except.bind, c.compileTokens rendered short]

theorem compile_evaluates_assignment : ∃ ops, compile "b:=A; 1-B" = .ok ops ∧
    ∀ (V : Type) [F64 V] (args : Slot → V) (draws : Nat → V), eval ops args draws =
      some ((⟨[(1, .var 0)], .binary .sub (.lit (.decimal [byte '1'])) (.var 1), []⟩ : Calculation).eval args draws) := by
  refine @compile_evaluates _
    [.arg 1, .op .assign, .arg 0, .op .semi, .num (.decimal [byte '1']), .op .minus, .arg 1] _
    (.more (.assign .var) (.one (.plain (.binary (by decide +kernel) rfl (.lit rfl) .var)))) ?_ (by decide +kernel)
  have text : "b:=A; 1-B".toUTF8.data.toList =
      [] ++ [byte 'b'] ++ ([] ++ Sym.assign.bytes ++ ([] ++ [byte 'A'] ++ ([] ++ Sym.semi.bytes ++
        ([byte ' '] ++ ([byte '1'] ++ [] ++ []) ++ ([] ++ Sym.minus.bytes ++ ([] ++ [byte 'B'] ++ [])))))) := by
    decide +kernel
  have b : Spelling (.arg 1) [byte 'b'] := Spelling.word (c := byte 'b') (w := []) (by decide +kernel) (by decide +kernel)
  have a : Spelling (.arg 0) [byte 'A'] := Spelling.word (c := byte 'A') (w := []) (by decide +kernel) (by decide +kernel)
  have upperB : Spelling (.arg 1) [byte 'B'] := Spelling.word (c := byte 'B') (w := []) (by decide +kernel) (by decide +kernel)
  have one := @Spelling.decimal [byte '1'] [] [] (by decide +kernel) (.absent (by decide +kernel)) .absent
  have none : Blank [] := by unfold Blank; decide +kernel
  have space : Blank [byte ' '] := by unfold Blank; decide +kernel
  rw [text]
  exact .cons none b (by decide +kernel) (.cons none (.symbol _) (by decide +kernel) (.cons none a (by decide +kernel)
    (.cons none (.symbol _) (by decide +kernel) (.cons space one (by decide +kernel) (.cons none (.symbol _) (by decide +kernel)
      (.cons none upperB (by decide +kernel) (.nil none)))))))

end Spvirit.Calc
