import Spvirit.Gateway.Acf

/-! The fuel of the parser suffices. -/

namespace Spvirit.Gateway

variable {α β τ μ : Type} {n fuel : Nat} {ts : List Token}

/-- What is returned is good, and an error is not that of the fuel. -/
def Ends (good : α → Prop) : Except AcfError α → Prop
  | .ok a => good a
  | .error e => e ≠ .outOfFuel

/-- Fewer than `n` tokens, or characters, are left. -/
abbrev Leaves (n : Nat) : Except AcfError (α × List τ) → Prop := Ends fun r => r.2.length < n

theorem Ends.bind {good : α → Prop} {good' : β → Prop} {r : Except AcfError α} {f : α → Except AcfError β}
    (first : Ends good r) (next : ∀ a, good a → Ends good' (f a)) : Ends good' (r >>= f) := by
  cases r with
  | error e => exact first
  | ok a => exact next a first

theorem Leaves.mono {m : Nat} {r : Except AcfError (α × List τ)} (leaves : Leaves m r) (fewer : m ≤ n) : Leaves n r := by
  cases r with
  | error e => exact leaves
  | ok a => exact Nat.lt_of_lt_of_le leaves fewer

section

variable (inside : ts.length ≤ n)

include inside

theorem expect_ends (token : Token) : Ends (fun rest => rest.length < n) (expect token ts) := by
  unfold expect
  split
  · simp [Ends]
  · split_ifs
    · exact inside
    · simp [Ends]

theorem expectIdent_leaves : Leaves n (expectIdent ts) := by
  unfold expectIdent
  split
  · simp [Ends]
  · exact inside
  · simp [Ends]

theorem expectNumber_leaves : Leaves n (expectNumber ts) := by
  unfold expectNumber
  split
  · simp [Ends]
  · exact inside
  · simp [Ends]

theorem parseItems_leaves {close : Token} {item : Token → Except AcfError String} (fails : ∀ t, Ends (fun _ => True) (item t)) :
    Leaves n (parseItems close item ts) := by
  induction ts using List.twoStepInduction with
  | nil => simp [parseItems, Ends]
  | singleton t =>
    rw [parseItems]
    split
    · exact inside
    · exact (fails t).bind fun _ _ => by simp [Ends]
  | cons_cons t next ts ih _ =>
    simp only [List.length_cons] at inside
    rw [parseItems]
    split
    · exact inside
    · refine (fails t).bind fun first _ => ?_
      split_ifs
      · exact (ih (by omega)).bind fun r left => left
      · exact Nat.lt_of_succ_lt inside
      · simp [Ends]

theorem parseParenIdentList_leaves : Leaves n (parseParenIdentList ts) :=
  (expect_ends inside _).bind fun _ left => parseItems_leaves left.le fun t => by cases t <;> simp [listItem, Ends]

theorem parseBraceIdentList_leaves : Leaves n (parseBraceIdentList ts) :=
  (expect_ends inside _).bind fun _ left => parseItems_leaves left.le fun t => by cases t <;> simp [identItem, Ends]

end

theorem parseOps_leaves (ops : OpSet) (enough : ts.length < fuel) : Leaves ts.length (parseOps fuel ops ts) := by
  induction fuel generalizing ops ts with
  | zero => omega
  | succ fuel ih =>
    have added (word : String) : Ends (fun _ => True) (addOperation ops word) := by
      unfold addOperation
      split_ifs <;> simp [Ends]
    refine (expectIdent_leaves le_rfl).bind fun r left => (added r.1).bind fun ops' _ => ?_
    split
    next more here =>
      rw [here, List.length_cons] at left
      split
      · simp [Ends]
      · exact (ih ops' (by omega)).mono (by omega)
    next => exact left

section

variable (keep : Keeping μ)

theorem parseBlock_leaves (kept : μ) (enough : ts.length < fuel) : Leaves ts.length (parseBlock keep fuel kept ts) := by
  induction fuel generalizing kept ts with
  | zero => omega
  | succ fuel ih =>
    unfold parseBlock
    dsimp only
    split
    · exact Nat.lt_succ_self _
    · split_ifs
      pick_goal 3
      · simp [Ends]
      -- The clauses of both kinds are read the same way.
      all_goals
        rw [List.length_cons] at enough ⊢
        refine (parseParenIdentList_leaves (Nat.le_succ _)).bind fun r left => ?_
        split
        next more here =>
          rw [here, List.length_cons] at left
          exact (ih _ (by omega)).mono (by omega)
        next more here =>
          rw [here, List.length_cons] at left
          exact Nat.lt_of_succ_lt left
        · simp [Ends]
    · simp [Ends]

theorem parseRule_leaves (inside : ts.length ≤ n) : Leaves n (parseRule keep ts) := by
  refine (expect_ends inside _).bind fun rest left => (expectNumber_leaves left.le).bind fun asl left => ?_
  refine (expect_ends left.le _).bind fun rest left => ?_
  refine ((parseOps_leaves {} (Nat.lt_succ_self _)).mono left.le).bind fun ops left => ?_
  refine (expect_ends left.le _).bind fun rest left => ?_
  split
  next inner =>
    rw [List.length_cons] at left
    exact ((parseBlock_leaves keep keep.opened (Nat.lt_succ_self _)).mono (Nat.le_of_succ_le left.le)).bind fun r left => left
  next => exact left

theorem parseRules_leaves (enough : ts.length < fuel) : Leaves ts.length (parseRules keep fuel ts) := by
  induction fuel generalizing ts with
  | zero => omega
  | succ fuel ih =>
    unfold parseRules
    split
    · exact Nat.lt_succ_self _
    · rw [List.length_cons] at enough ⊢
      split_ifs
      · refine (parseRule_leaves keep (Nat.le_succ _)).bind fun r left => ?_
        exact ((ih (by omega)).mono left.le).bind fun rules left => left
      · simp [Ends]
    · simp [Ends]

theorem parseName_leaves (inside : ts.length ≤ n) : Leaves n (parseName ts) :=
  (expect_ends inside _).bind fun _ left => (expectIdent_leaves left.le).bind fun _ left =>
    (expect_ends left.le _).bind fun _ left => left

theorem parseDefinition_leaves (acf : AcfOf μ) (word : String) (inside : ts.length ≤ n) :
    Leaves n (parseDefinition keep acf word ts) := by
  have group (kind : GroupKind) : Leaves n (parseGroup acf kind ts) := by
    refine (parseName_leaves inside).bind fun name left => (parseBraceIdentList_leaves left.le).bind fun members left => ?_
    dsimp only
    split
    · simp [Ends]
    · exact left
  have asg : Leaves n (parseAsg keep acf ts) := by
    refine (parseName_leaves inside).bind fun name left => ?_
    have body : Leaves n (parseAsgBody keep name.2) :=
      (expect_ends left.le _).bind fun _ left => (parseRules_leaves keep (Nat.lt_succ_self _)).mono left.le
    refine body.bind fun rules left => ?_
    dsimp only
    split
    · simp [Ends]
    · exact left
  unfold parseDefinition
  split_ifs
  · exact group .uag
  · exact group .hag
  · exact asg
  · simp [Ends]

theorem parseDocument_ends (acf : AcfOf μ) (enough : ts.length ≤ fuel) :
    Ends (fun _ => True) (parseDocument keep fuel acf ts) := by
  induction fuel generalizing acf ts with
  | zero =>
    obtain rfl : ts = [] := List.length_eq_zero_iff.mp (by omega)
    simp [parseDocument, Ends]
  | succ fuel ih =>
    cases ts with
    | nil => simp [parseDocument, Ends]
    | cons t ts =>
      refine (expectIdent_leaves enough).bind fun r left => ?_
      exact (parseDefinition_leaves keep acf r.1 (Nat.le_of_lt_succ left)).bind fun d left => ih d.1 left.le

end

theorem readToken_leaves (pos : Nat) (c : Char) (cs : List Char) :
    Leaves (c :: cs).length (readToken pos (c :: cs)) := by
  have dropped (p : Char → Bool) : (cs.dropWhile p).length < (c :: cs).length :=
    Nat.lt_succ_of_le (List.dropWhile_suffix p).length_le
  unfold readToken
  dsimp only
  split_ifs
  · exact Nat.lt_succ_self _
  · exact dropped _
  iterate 5 exact Nat.lt_succ_self _
  · split
    · simp [Ends]
    next quote rest found =>
      have shorter := dropped (· ≠ '"')
      rw [found] at shorter
      exact Nat.lt_of_succ_lt shorter
  · have inside : isWordChar c = true := by simp_all [isWordChar, isDelimiter]
    have taken := dropped isWordChar
    rwa [← List.dropWhile_cons_of_pos inside] at taken

theorem tokenizeFrom_ends (pos : Nat) {cs : List Char} (enough : cs.length ≤ fuel) :
    Ends (fun _ => True) (tokenizeFrom fuel pos cs) := by
  induction fuel generalizing pos cs with
  | zero =>
    obtain rfl : cs = [] := List.length_eq_zero_iff.mp (by omega)
    simp [tokenizeFrom, Ends]
  | succ fuel ih =>
    cases cs with
    | nil => simp [tokenizeFrom, Ends]
    | cons c rest =>
      refine (readToken_leaves pos c rest).bind fun r left => ?_
      exact (ih _ (Nat.le_of_lt_succ (left.trans_le enough))).bind fun _ _ => trivial

/-- The fuel always suffices. -/
theorem parseText_fuel (keep : Keeping μ) (text : String) : parseText keep text ≠ .error .outOfFuel := by
  have ends : Ends (fun _ => True) (parseText keep text) :=
    (tokenizeFrom_ends 0 le_rfl).bind fun _ _ => parseDocument_ends keep .empty le_rfl
  intro spent
  rw [spent] at ends
  exact ends rfl

end Spvirit.Gateway
