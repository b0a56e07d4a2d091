import Spvirit.Calc.Grammar

/-! Every well-formed token sequence passes the checks on the order of tokens. -/

namespace Spvirit.Calc

theorem wordOperator_only {name : String} {op : Op} (word : wordOperator name = some op) :
    constant name = none ∧ nullaryOp name = none := by
  unfold wordOperator at word
  split at word <;> first | contradiction | exact ⟨rfl, rfl⟩

theorem Token.sym_not_function (sym : Sym) (f : Op) : (Token.op sym).asOperand ≠ .function f := by
  simp only [asOperand]
  cases toOp sym true <;> simp

theorem Token.infixOp_not_function {t : Token} {op f : Op} (binary : t.infixOp = some op) :
    t.asOperand ≠ .function f := by
  cases t with
  | arg _ | num _ => simp [infixOp] at binary
  | ident name =>
    cases word : wordOperator name with
    | none => simp [infixOp, word] at binary
    | some found =>
      simp only [asOperand, wordOperator_only word, word]
      simp only [Option.isSome_none, Bool.false_eq_true, or_self, if_false]
      split <;> simp
  | op sym => exact sym_not_function sym f

namespace Scan

variable {s : Scan} {t : Token}

theorem token_atom (expects : s.expect = true) (atom : t.asOperand = .atom) :
    s.token t = some ⟨false, s.groups, some t⟩ := by
  cases t with
  | arg _ | num _ => simp [token, expects]
  | ident name =>
    simp only [Token.asOperand] at atom
    split at atom
    · next named => simp [token, named]
    · revert atom
      split
      · split <;> simp
      · split <;> simp
  | op sym => cases sym <;> simp [Token.asOperand, toOp] at atom

theorem token_function {f : Op} (function : t.asOperand = .function f) :
    s.token t = some ⟨true, s.groups, some t⟩ := by
  cases t with
  | arg _ | num _ => simp [Token.asOperand] at function
  | ident name =>
    simp only [Token.asOperand] at function
    split at function
    · simp at function
    · next unnamed => simp [token, unnamed]
  | op sym => cases sym <;> simp [Token.asOperand, toOp] at function

theorem token_unary {op : Op} (unary : t.asOperand = .unary op) : s.token t = some ⟨true, s.groups, some t⟩ := by
  cases t with
  | arg _ | num _ => simp [Token.asOperand] at unary
  | ident name =>
    simp only [Token.asOperand] at unary
    split at unary
    · simp at unary
    · next unnamed => simp [token, unnamed]
  | op sym => cases sym <;> simp [Token.asOperand, toOp, token] at unary ⊢

theorem token_binary {op : Op} (binary : t.infixOp = some op) : s.token t = some ⟨true, s.groups, some t⟩ := by
  cases t with
  | arg _ | num _ => simp [Token.infixOp] at binary
  | ident name =>
    cases word : wordOperator name with
    | none => simp [Token.infixOp, word] at binary
    | some found => simp [token, wordOperator_only word]
  | op sym => cases sym <;> simp [Token.infixOp, toOp, Except.toOption, token] at binary ⊢

theorem run_append (s : Scan) (ts us : List Token) : s.run (ts ++ us) = (s.run ts).bind fun s' => s'.run us := by
  induction ts generalizing s with
  | nil => rfl
  | cons t ts ih => cases next : s.token t <;> simp [run, next, ih]

/-- The open groups after a part of the given category: an argument list has
counted its commas in the call it stands in. -/
def closed : Category → List (Option (Op × Nat)) → List (Option (Op × Nat))
  | .args n, some (f, commas) :: groups => some (f, commas + (n - 1)) :: groups
  | _, groups => groups

/-- A part stands where the scan expects an operand, an argument list in its call. -/
structure Ready (cat : Category) (s : Scan) : Prop where
  expects : s.expect = true
  uncalled : s.called = none
  inCall : ∀ n, cat = .args n → ∃ f commas groups, s.groups = some (f, commas) :: groups

theorem called_eq_none {expect : Bool} {groups : List (Option (Op × Nat))} (other : ∀ f, t.asOperand ≠ .function f) :
    (⟨expect, groups, some t⟩ : Scan).called = none := by
  simp only [called, Option.map_some]
  split
  · next f found => exact absurd (Option.some.inj found) (other f)
  · rfl

theorem Ready.after {cat : Category} {groups : List (Option (Op × Nat))} (other : ∀ f, t.asOperand ≠ .function f)
    (inCall : ∀ n, cat = .args n → ∃ f commas rest, groups = some (f, commas) :: rest) :
    Ready cat ⟨true, groups, some t⟩ :=
  ⟨rfl, called_eq_none other, inCall⟩

theorem Ready.to {cat other : Category} (ready : Ready cat s) (plain : ∀ n, other ≠ .args n) : Ready other s :=
  ⟨ready.expects, ready.uncalled, fun n same => absurd same (plain n)⟩

end Scan

theorem Parses.args_pos {cat : Category} {n : Nat} {ts : List Token} (parsed : Parses cat ts)
    (args : cat = .args n) : 1 ≤ n := by
  cases parsed <;> simp_all
  omega

open Scan in
/-- The scan of a well-formed part ends after its last operand. -/
theorem Parses.scans {cat : Category} {ts : List Token} (parsed : Parses cat ts) (s : Scan) (ready : Ready cat s) :
    ∃ last, s.run ts = some ⟨false, closed cat s.groups, some last⟩ := by
  induction parsed generalizing s with
  | @atom t atom => exact ⟨t, by simp [run, token_atom ready.expects atom, closed]⟩
  | @group e _ ih =>
    obtain ⟨last, inner⟩ := ih ⟨true, none :: s.groups, some (.op .lparen)⟩ (.after (Token.sym_not_function _) (by simp))
    simp only [closed] at inner
    refine ⟨.op .rparen, ?_⟩
    simp [run, token, ready.expects, ready.uncalled, run_append, inner, closed]
  | @call t f n as function takes args ih =>
    obtain ⟨last, inner⟩ :=
      ih ⟨true, some (f, 0) :: s.groups, some (.op .lparen)⟩ (.after (Token.sym_not_function _) fun _ _ => ⟨f, 0, _, rfl⟩)
    have positive := args.args_pos rfl
    have count : n - 1 + 1 = n := by omega
    simp only [closed, zero_add] at inner
    refine ⟨.op .rparen, ?_⟩
    have opened : (⟨true, s.groups, some t⟩ : Scan).token (.op .lparen) =
        some ⟨true, some (f, 0) :: s.groups, some (.op .lparen)⟩ := by
      simp [token, called, function]
    simp only [List.cons_append, run, token_function function, Option.bind_some, opened, run_append, inner]
    simp [token, count, takes, closed]
  | operand _ ih | single _ ih | expr _ ih | statement _ ih | program _ ih => exact ih s (ready.to (by simp))
  | @unary t op o unary _ ih =>
    obtain ⟨last, inner⟩ := ih ⟨true, s.groups, some t⟩ (.after (by simp [unary]) (by simp))
    exact ⟨last, by simpa [run, token_unary unary] using inner⟩
  | @binary c o t op _ binary _ ihc iho =>
    obtain ⟨first, left⟩ := ihc s (ready.to (by simp))
    obtain ⟨last, right⟩ := iho ⟨true, s.groups, some t⟩ (.after (fun f => Token.infixOp_not_function binary) (by simp))
    exact ⟨last, by simpa [run_append, left, run, token_binary binary, closed] using right⟩
  | @cond c b e _ _ _ ihc ihb ihe =>
    obtain ⟨_, test⟩ := ihc s (ready.to (by simp))
    obtain ⟨_, thenRun⟩ := ihb ⟨true, s.groups, some (.op .question)⟩ (.after (Token.sym_not_function _) (by simp))
    obtain ⟨last, elseRun⟩ := ihe ⟨true, s.groups, some (.op .colon)⟩ (.after (Token.sym_not_function _) (by simp))
    simp only [closed] at test thenRun elseRun
    exact ⟨last, by simp [run_append, test, run, token, thenRun, elseRun, closed]⟩
  | @oneArg e _ ih =>
    obtain ⟨f, commas, groups, inCall⟩ := ready.inCall 1 rfl
    obtain ⟨last, inner⟩ := ih s (ready.to (by simp))
    exact ⟨last, by simpa [closed, inCall] using inner⟩
  | @moreArgs n as e args _ ihas ihe =>
    obtain ⟨f, commas, groups, inCall⟩ := ready.inCall _ rfl
    obtain ⟨_, before⟩ := ihas s ⟨ready.expects, ready.uncalled, fun _ _ => ⟨f, commas, groups, inCall⟩⟩
    have positive := args.args_pos rfl
    have count : commas + (n - 1) + 1 = commas + n := by omega
    simp only [closed, inCall] at before
    obtain ⟨last, inner⟩ :=
      ihe ⟨true, some (f, commas + n) :: groups, some (.op .comma)⟩ (.after (Token.sym_not_function _) (by simp))
    exact ⟨last, by simpa [run_append, before, run, token, count, closed, inCall] using inner⟩
  | @assign slot e _ ih =>
    obtain ⟨last, inner⟩ := ih ⟨true, s.groups, some (.op .assign)⟩ (.after (Token.sym_not_function _) (by simp))
    exact ⟨last, by simpa [run, token, ready.expects, closed] using inner⟩
  | @sequence p b _ _ ihp ihb =>
    obtain ⟨_, before⟩ := ihp s (ready.to (by simp))
    obtain ⟨last, inner⟩ := ihb ⟨true, s.groups, some (.op .semi)⟩ (.after (Token.sym_not_function _) (by simp))
    simp only [closed] at before
    exact ⟨last, by simpa [run_append, before, run, token, closed] using inner⟩

theorem WellFormed.guarded {src : String} (formed : WellFormed src) : Guarded src := by
  obtain ⟨toks, lexed, rfl | parsed⟩ := formed
  · exact ⟨[], lexed, rfl⟩
  · obtain ⟨last, scanned⟩ := parsed.scans Scan.init ⟨rfl, rfl, by simp⟩
    exact ⟨toks, lexed, by simp [scanned]⟩

end Spvirit.Calc
