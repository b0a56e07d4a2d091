import Spvirit.Gateway.Access

/-! Access security levels: which rules of a group are considered for a name, and
what raising the level of a name does. -/

namespace Spvirit.Gateway

variable {acf : Acf} {op : Operation} {id : Identity} {pv survived : String} {b : AslBinding} {rules : List AsgRule}

theorem considered_iff {rule : AsgRule} {asl : Nat} : rule.considered asl = true ↔ rule.asl ≤ asl := by
  simp [RuleOf.considered]

theorem acfGrants_iff (group : acf.asgs b.asg = some rules) :
    acfGrants acf b op id = true ↔ ∃ rule ∈ rules, rule.asl ≤ b.asl ∧ rule.admits acf op id = true := by
  simp [acfGrants, group, RuleOf.grants, considered_iff]

/-- The first rule that applies to the name gets another level. -/
def raiseFirst (pv : String) (id : Identity) (asl : Nat) : List PvlistRule → List PvlistRule
  | [] => []
  | rule :: rules => if rule.applies pv id then { rule with asl := asl } :: rules else rule :: raiseFirst pv id asl rules

/-- The access control with the name's level raised in the pvlist. -/
def AccessControl.raised (ac : AccessControl) (pv : String) (id : Identity) (asl : Nat) : AccessControl :=
  { ac with pvlist := ac.pvlist.map fun pvlist => ⟨raiseFirst pv id asl pvlist.rules⟩ }

theorem find_raiseFirst (asl : Nat) (rs : List PvlistRule) :
    (raiseFirst pv id asl rs).find? (fun rule => rule.applies pv id)
      = (rs.find? fun rule => rule.applies pv id).map fun rule => { rule with asl := asl } := by
  induction rs with
  | nil => rfl
  | cons rule rs ih =>
    rw [raiseFirst]
    by_cases applies : rule.applies pv id = true
    · have same : ({ rule with asl := asl } : PvlistRule).applies pv id = true := applies
      rw [if_pos applies, List.find?_cons, List.find?_cons, same, applies]
      rfl
    · have other : rule.applies pv id = false := by simpa using applies
      rw [if_neg applies, List.find?_cons, List.find?_cons, other]
      exact ih

theorem survives_raised {rule : PvlistRule} {asl : Nat} (bound : rule.survives pv = some (survived, b)) :
    ({ rule with asl := asl } : PvlistRule).survives pv = some (survived, ⟨b.asg, asl⟩) := by
  unfold PvlistRule.survives at bound ⊢
  dsimp only
  cases action : rule.action with
  | deny =>
    rw [action] at bound
    cases bound
  | allow =>
    rw [action] at bound
    cases bound
    rfl
  | «alias» template =>
    rw [action] at bound
    cases captured : rule.pattern.captures pv with
    | none | some _ =>
      rw [captured] at bound
      cases bound
      rfl

theorem pvlistStep_raised {ac : AccessControl} {pvlist : Pvlist} (listed : ac.pvlist = some pvlist)
    (bound : ac.pvlistStep pv id false = some (survived, b)) (asl : Nat) :
    (ac.raised pv id asl).pvlistStep pv id false = some (survived, ⟨b.asg, asl⟩) := by
  unfold AccessControl.pvlistStep at bound ⊢
  rw [listed] at bound
  rw [AccessControl.raised, listed]
  dsimp only [Option.map_some] at bound ⊢
  rw [find_raiseFirst]
  cases found : pvlist.rules.find? fun rule => rule.applies pv id with
  | none =>
    rw [found] at bound
    cases bound
  | some rule =>
    rw [found] at bound
    exact survives_raised bound

theorem decide_deny_iff {ac : AccessControl} (writes : op ≠ .get) (bound : ac.pvlistStep pv id false = some (survived, b))
    (secured : ac.acf = some acf) : ac.decide op pv id = .deny ↔ ac.readOnly = true ∨ acfGrants acf b op id = false := by
  have allowed : allowDecision pv survived ≠ .deny := by
    unfold allowDecision
    split <;> simp
  unfold AccessControl.decide AccessControl.decideInner
  by_cases locked : ac.readOnly = true
  · simp [locked, writes]
  · rw [if_neg (by simp [locked]), bound, secured]
    dsimp only
    rw [if_neg writes]
    cases granted : acfGrants acf b op id <;> simp [locked, allowed]

/-- The level check is the wrong way round: a rule is considered as the classic rule
says only where its level is that of the name. Raising the name's level admits the
rules between the two levels. -/
theorem levels_classic_iff (ac : AccessControl) (writes : op ≠ .get)
    (bound : ac.pvlistStep pv id false = some (survived, b)) (secured : ac.acf = some acf)
    (group : acf.asgs b.asg = some rules) :
    ((∀ rule ∈ rules, rule.considered b.asl = true ↔ b.asl ≤ rule.asl) ↔ ∀ rule ∈ rules, rule.asl = b.asl) ∧
      ∀ pvlist, ac.pvlist = some pvlist → ∀ higher, b.asl ≤ higher →
        ((ac.decide op pv id = .deny → (ac.raised pv id higher).decide op pv id = .deny) ↔
          ac.readOnly = true ∨ (∃ rule ∈ rules, rule.asl ≤ b.asl ∧ rule.admits acf op id = true) ∨
            ∀ rule ∈ rules, rule.asl ≤ higher → rule.admits acf op id = false) := by
  constructor
  · constructor
    · intro classic rule member
      have same := classic rule member
      rw [considered_iff] at same
      rcases Nat.le_total rule.asl b.asl with below | above
      · exact Nat.le_antisymm below (same.mp below)
      · exact Nat.le_antisymm (same.mpr above) above
    · intro level rule member
      rw [considered_iff, level rule member]
  · intro pvlist listed higher raised
    have before := decide_deny_iff writes bound secured
    have after := @decide_deny_iff acf op id pv survived ⟨b.asg, higher⟩ (ac.raised pv id higher) writes
      (pvlistStep_raised listed bound higher) secured
    have granted := @acfGrants_iff acf op id b rules group
    have granted' := @acfGrants_iff acf op id ⟨b.asg, higher⟩ rules group
    rw [before, after]
    change _ → ac.readOnly = true ∨ _ ↔ _
    by_cases locked : ac.readOnly = true
    · simp [locked]
    · simp only [locked, false_or, Bool.false_eq_true]
      rw [← Bool.not_eq_true, ← Bool.not_eq_true, granted, granted']
      constructor
      · intro kept
        by_cases first : ∃ rule ∈ rules, rule.asl ≤ b.asl ∧ rule.admits acf op id = true
        · exact Or.inl first
        · refine Or.inr fun rule member level => ?_
          by_contra admits
          exact kept first ⟨rule, member, level, by simpa using admits⟩
      · rintro (first | none) denied
        · exact absurd first denied
        · rintro ⟨rule, member, level, admits⟩
          rw [none rule member level] at admits
          cases admits

/-- A pattern that matches every name and captures nothing. -/
def anyName : Pattern := ⟨fun _ => true, fun _ => some fun _ => none⟩

/-- Every name is bound to the group at the level. -/
def boundTo (asg : String) (asl : Nat) : Pvlist := ⟨[⟨anyName, .allow, asg, asl, []⟩]⟩

/-- A rule of level 1 is passed over for a name of level 0, and admits the write once
the name's level is raised to 1. -/
theorem raised_level_admits_write : ∃ acf, parseAcf "ASG(G)\x7bRULE(1,WRITE)\x7d" = .ok acf ∧
    (∃ rule, acf.asgs "G" = some [rule] ∧ rule.asl = 1 ∧ rule.considered 0 = false) ∧
      (⟨false, some (boundTo "G" 0), some acf⟩ : AccessControl).decide .put "X" ⟨none, none⟩ = .deny ∧
      (⟨false, some (boundTo "G" 1), some acf⟩ : AccessControl).decide .put "X" ⟨none, none⟩ = .allow ∧
      ((⟨false, some (boundTo "G" 0), some acf⟩ : AccessControl).raised "X" ⟨none, none⟩ 1).pvlist
        = some (boundTo "G" 1) :=
  ⟨_, rfl, ⟨_, rfl, rfl, rfl⟩, rfl, rfl, rfl⟩

theorem levels_classic_one : ∃ acf, parseAcf "ASG(G)\x7bRULE(1,WRITE)\x7d" = .ok acf ∧
    (∃ rules, acf.asgs "G" = some rules ∧ ∀ rule ∈ rules, rule.considered 1 = true ↔ 1 ≤ rule.asl) := by
  have parsed : ∃ acf, parseAcf "ASG(G)\x7bRULE(1,WRITE)\x7d" = .ok acf ∧
      ∃ rule, acf.asgs "G" = some [rule] ∧ rule.asl = 1 := ⟨_, rfl, _, rfl, rfl⟩
  obtain ⟨acf, accepted, rule, group, level⟩ := parsed
  refine ⟨acf, accepted, [rule], group, ?_⟩
  have bound : (⟨false, some (boundTo "G" 1), some acf⟩ : AccessControl).pvlistStep "X" ⟨none, none⟩ false
      = some ("X", ⟨"G", 1⟩) := rfl
  have classic := @levels_classic_iff acf .put ⟨none, none⟩ "X" "X" ⟨"G", 1⟩ [rule] ⟨false, some (boundTo "G" 1), some acf⟩
    (by simp) bound rfl group
  exact classic.1.mpr fun r member => by rw [List.mem_singleton.mp member, level]

/-- The second file has all groups of the first, each with its members or rules and perhaps more. -/
structure AcfOf.Extends (acf acf' : Acf) : Prop where
  groups : ∀ kind name, ∀ members ∈ acf.groups kind name, ∃ more ∈ acf'.groups kind name, members ⊆ more
  asgs : ∀ name, ∀ rules ∈ acf.asgs name, ∃ more ∈ acf'.asgs name, rules ⊆ more

theorem AcfOf.Extends.memberOk {acf acf' : Acf} (grown : acf.Extends acf') (kind : GroupKind) (names : List String)
    (member : Option String) (ok : Gateway.memberOk (acf.groups kind) names member = true) :
    Gateway.memberOk (acf'.groups kind) names member = true := by
  simp only [Gateway.memberOk, Bool.or_eq_true, Option.any_eq_true, List.any_eq_true] at ok ⊢
  refine ok.imp_right ?_
  rintro ⟨m, given, name, listed, members, held, x, inside, same⟩
  obtain ⟨more, held', wider⟩ := grown.groups kind name members held
  exact ⟨m, given, name, listed, more, held', x, wider inside, same⟩

/-- Members added to groups and rules added to security groups take no access away. -/
theorem extended_access (ac : AccessControl) (acf acf' : Acf) (grown : acf.Extends acf') (op : Operation) (pv : String)
    (id : Identity) (unmatched : Bool) (admitted : { ac with acf := some acf }.decideInner op pv id unmatched ≠ .deny) :
    { ac with acf := some acf' }.decideInner op pv id unmatched =
      { ac with acf := some acf }.decideInner op pv id unmatched := by
  have grants : ∀ binding, acfGrants acf binding op id = true → acfGrants acf' binding op id = true := by
    intro binding granted
    rcases found : acf.asgs binding.asg with _ | rules
    · simp [acfGrants, found] at granted
    · obtain ⟨more, found', wider⟩ := grown.asgs _ rules found
      obtain ⟨rule, member, level, admits⟩ := (acfGrants_iff found).mp granted
      refine (acfGrants_iff found').mpr ⟨rule, wider member, level, ?_⟩
      simp only [RuleOf.admits, Bool.and_eq_true] at admits ⊢
      exact ⟨⟨admits.1.1, grown.memberOk _ _ _ admits.1.2⟩, grown.memberOk _ _ _ admits.2⟩
  -- the pvlist decides the same: only the grant is left to compare
  simp only [AccessControl.decideInner, AccessControl.pvlistStep] at admitted ⊢
  grind

theorem extended_access_groups :
    let rule : AsgRule := ⟨0, ⟨true, true, true⟩, ⟨["ops"], []⟩⟩
    let acf (users : List String) (rules : List AsgRule) : Acf := ⟨fun _ _ => some users, fun _ => some rules⟩
    AccessControl.decideInner ⟨false, none, some (acf ["a", "b"] [⟨0, ⟨true, false, true⟩, ⟨[], []⟩⟩, rule])⟩ .put "pv"
      ⟨none, some "a"⟩ false = .allow := by
  intro rule acf
  refine (extended_access ⟨false, none, none⟩ (acf ["a"] [rule]) _ ⟨?_, ?_⟩ .put "pv" ⟨none, some "a"⟩ false ?_).trans ?_
  · simp [acf]
  · simp [acf]
  all_goals decide

end Spvirit.Gateway
