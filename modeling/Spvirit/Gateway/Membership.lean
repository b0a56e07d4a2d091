import Spvirit.Gateway.Access
import Spvirit.Gateway.AcfParse

/-! Membership blocks as they are written, and whom the merged lists admit. -/

namespace Spvirit.Gateway

variable {μ ν : Type}

/-- The block is kept as written, if there is one. -/
def writing : Keeping (Option (List Clause)) := ⟨none, some [], fun kept c => some (kept.getD [] ++ [c])⟩

def parseWritten (text : String) : Except AcfError (AcfOf (Option (List Clause))) := parseText writing text

/-- What one parser keeps determines what another keeps. -/
structure Keeping.Hom (keep : Keeping μ) (keep' : Keeping ν) (h : μ → ν) : Prop where
  absent : h keep.absent = keep'.absent
  opened : h keep.opened = keep'.opened
  extend : ∀ kept c, h (keep.extend kept c) = keep'.extend (h kept) c

def RuleOf.map (h : μ → ν) (rule : RuleOf μ) : RuleOf ν := ⟨rule.asl, rule.ops, h rule.members⟩

def AcfOf.map (h : μ → ν) (acf : AcfOf μ) : AcfOf ν := ⟨acf.groups, fun name => (acf.asgs name).map (List.map (RuleOf.map h))⟩

section

variable {α β γ δ : Type} {f : α → γ} {g : β → δ}

/-- The same outcome, up to what is kept. -/
def Same (f : α → γ) (r : Except AcfError (α × List Token)) (r' : Except AcfError (γ × List Token)) : Prop :=
  r' = r.map (Prod.map f id)

theorem Same.error (e : AcfError) : Same f (.error e) (.error e) := rfl

theorem Same.ok (a : α) (ts : List Token) : Same f (.ok (a, ts)) (.ok (f a, ts)) := rfl

theorem Same.bind {r : Except AcfError (α × List Token)} {r' : Except AcfError (γ × List Token)}
    {next : α × List Token → Except AcfError (β × List Token)} {next' : γ × List Token → Except AcfError (δ × List Token)}
    (first : Same f r r') (others : ∀ a ts, Same g (next (a, ts)) (next' (f a, ts))) : Same g (r >>= next) (r' >>= next') := by
  subst first
  rcases r with e | ⟨a, ts⟩
  · rfl
  · exact others a ts

theorem Same.step {ρ : Type} {r : Except AcfError ρ} {next : ρ → Except AcfError (β × List Token)}
    {next' : ρ → Except AcfError (δ × List Token)} (others : ∀ x, Same g (next x) (next' x)) :
    Same g (r >>= next) (r >>= next') := by
  cases r with
  | error e => rfl
  | ok x => exact others x

end

section

variable {keep : Keeping μ} {keep' : Keeping ν} {h : μ → ν} (hom : keep.Hom keep' h)

include hom

theorem parseBlock_same (fuel : Nat) (kept : μ) (ts : List Token) :
    Same h (parseBlock keep fuel kept ts) (parseBlock keep' fuel (h kept) ts) := by
  induction fuel generalizing kept ts with
  | zero => exact .error _
  | succ fuel ih =>
    unfold parseBlock
    split
    · exact .ok kept _
    · split_ifs
      all_goals first
        | exact .error _
        | refine Same.step fun r => ?_
          dsimp only
          rw [← hom.extend]
          split
          · exact ih _ _
          · exact .ok _ _
          · exact .error _
    · exact .error _

theorem parseRule_same (ts : List Token) : Same (RuleOf.map h) (parseRule keep ts) (parseRule keep' ts) := by
  refine Same.step fun ts => Same.step fun asl => Same.step fun ts => Same.step fun ops => Same.step fun ts => ?_
  split
  · rw [← hom.opened]
    exact (parseBlock_same hom _ keep.opened _).bind fun members ts => .ok _ _
  · rw [← hom.absent]
    exact .ok _ _

theorem parseRules_same (fuel : Nat) (ts : List Token) :
    Same (List.map (RuleOf.map h)) (parseRules keep fuel ts) (parseRules keep' fuel ts) := by
  induction fuel generalizing ts with
  | zero => exact .error _
  | succ fuel ih =>
    unfold parseRules
    split
    · exact .ok _ _
    · split_ifs
      · exact (parseRule_same hom _).bind fun rule ts => (ih ts).bind fun rules ts => .ok _ _
      · exact .error _
    · exact .error _

omit hom in
theorem parseGroup_same (acf : AcfOf μ) (kind : GroupKind) (ts : List Token) :
    Same (AcfOf.map h) (parseGroup acf kind ts) (parseGroup (acf.map h) kind ts) := by
  refine Same.step fun name => Same.step fun members => ?_
  dsimp only
  by_cases defined : (acf.groups kind name.1).isSome = true
  · have defined' : ((acf.map h).groups kind name.1).isSome = true := defined
    rw [if_pos defined, if_pos defined']
    exact .error _
  · have defined' : ¬ ((acf.map h).groups kind name.1).isSome = true := defined
    rw [if_neg defined, if_neg defined']
    exact .ok _ _

theorem parseAsg_same (acf : AcfOf μ) (ts : List Token) :
    Same (AcfOf.map h) (parseAsg keep acf ts) (parseAsg keep' (acf.map h) ts) := by
  refine Same.step fun name => ?_
  have body : Same (List.map (RuleOf.map h)) (parseAsgBody keep name.2) (parseAsgBody keep' name.2) :=
    Same.step fun ts => parseRules_same hom _ ts
  refine body.bind fun rules ts => ?_
  dsimp only
  have known : ((acf.map h).asgs name.1).isSome = (acf.asgs name.1).isSome := Option.isSome_map
  by_cases defined : (acf.asgs name.1).isSome = true
  · rw [if_pos defined, if_pos (known.trans defined)]
    exact .error _
  · rw [if_neg defined, if_neg (fun also => defined (known.symm.trans also))]
    have updated : (fun n => (Function.update acf.asgs name.1 (some rules) n).map (List.map (RuleOf.map h)))
        = Function.update (fun n => (acf.asgs n).map (List.map (RuleOf.map h))) name.1 (some (rules.map (RuleOf.map h))) := by
      funext n
      by_cases here : n = name.1
      · subst here
        simp
      · simp [here]
    unfold Same
    dsimp only [AcfOf.map, Except.map, Prod.map, id]
    rw [updated]

theorem parseDefinition_same (acf : AcfOf μ) (word : String) (ts : List Token) :
    Same (AcfOf.map h) (parseDefinition keep acf word ts) (parseDefinition keep' (acf.map h) word ts) := by
  unfold parseDefinition
  split_ifs
  · exact parseGroup_same acf .uag ts
  · exact parseGroup_same acf .hag ts
  · exact parseAsg_same hom acf ts
  · exact .error _

theorem parseDocument_same (fuel : Nat) (acf : AcfOf μ) (ts : List Token) :
    parseDocument keep' fuel (acf.map h) ts = (parseDocument keep fuel acf ts).map (AcfOf.map h) := by
  induction fuel generalizing acf ts with
  | zero => cases ts <;> rfl
  | succ fuel ih =>
    cases ts with
    | nil => rfl
    | cons t ts =>
      unfold parseDocument
      cases expectIdent (t :: ts) with
      | error e => rfl
      | ok r =>
        change (parseDefinition keep' (acf.map h) r.1 r.2 >>= fun d => parseDocument keep' fuel d.1 d.2)
          = (parseDefinition keep acf r.1 r.2 >>= fun d => parseDocument keep fuel d.1 d.2).map (AcfOf.map h)
        rw [parseDefinition_same hom acf r.1 r.2]
        cases parseDefinition keep acf r.1 r.2 with
        | error e => rfl
        | ok d => exact ih d.1 d.2

theorem parseText_same (text : String) : parseText keep' text = (parseText keep text).map (AcfOf.map h) := by
  unfold parseText
  cases tokenize text with
  | error e => rfl
  | ok ts => exact parseDocument_same hom ts.length .empty ts

end

def namedGroups (kind : GroupKind) (clauses : List Clause) : List String :=
  (clauses.filter fun c => c.kind = kind).flatMap Clause.names

def merged (block : Option (List Clause)) : Groups :=
  ⟨namedGroups .uag (block.getD []), namedGroups .hag (block.getD [])⟩

theorem namedGroups_append (kind : GroupKind) (clauses : List Clause) (c : Clause) :
    namedGroups kind (clauses ++ [c]) = namedGroups kind clauses ++ if c.kind = kind then c.names else [] := by
  unfold namedGroups
  by_cases here : c.kind = kind
  · simp [List.filter_append, List.flatMap_append, here]
  · simp [List.filter_append, here]

theorem merged_hom : writing.Hom merging merged where
  absent := rfl
  opened := rfl
  extend := by
    intro kept c
    change Groups.mk (namedGroups .uag (kept.getD [] ++ [c])) (namedGroups .hag (kept.getD [] ++ [c]))
      = (merged kept).extend c
    rw [namedGroups_append, namedGroups_append, Groups.extend]
    cases kind : c.kind <;> simp [merged]

def Groups.of (g : Groups) : GroupKind → List String
  | .uag => g.uags
  | .hag => g.hags

def Identity.of (id : Identity) : GroupKind → Option String
  | .uag => id.user
  | .hag => id.host

theorem merged_of (clauses : List Clause) (kind : GroupKind) : (merged (some clauses)).of kind = namedGroups kind clauses := by
  cases kind <;> rfl

def MemberOf (acf : AcfOf μ) (kind : GroupKind) (name : String) (id : Identity) : Prop :=
  ∃ members member, acf.groups kind name = some members ∧ id.of kind = some member ∧ member ∈ members

/-- What a block asks of an identity: some group is named, and for each kind of clause
it is a member of a group that a clause of the kind names. -/
def Permits (acf : AcfOf μ) (clauses : List Clause) (id : Identity) : Prop :=
  (∃ c ∈ clauses, c.names ≠ []) ∧
    ∀ c ∈ clauses, ∃ c' ∈ clauses, c'.kind = c.kind ∧ ∃ name ∈ c'.names, MemberOf acf c.kind name id

theorem memberOk_iff {acf : AcfOf μ} {kind : GroupKind} {names : List String} {id : Identity} :
    memberOk (acf.groups kind) names (id.of kind) = true ↔ names = [] ∨ ∃ name ∈ names, MemberOf acf kind name id := by
  unfold memberOk MemberOf
  rw [Bool.or_eq_true, List.isEmpty_iff]
  simp only [Option.any_eq_true, List.any_eq_true, decide_eq_true_eq]
  constructor
  · rintro (absent | ⟨member, isIt, name, named, members, group, listed⟩)
    · exact Or.inl absent
    · obtain ⟨m, inside, rfl⟩ := listed
      exact Or.inr ⟨name, named, members, m, group, isIt, inside⟩
  · rintro (absent | ⟨name, named, members, member, group, isIt, listed⟩)
    · exact Or.inl absent
    · exact Or.inr ⟨member, isIt, name, named, members, group, member, listed, rfl⟩

theorem admits_iff {acf : Acf} {op : Operation} {id : Identity} {rule : AsgRule} :
    rule.admits acf op id = true ↔ rule.ops.lists op = true ∧
      ∀ kind, rule.members.of kind = [] ∨ ∃ name ∈ rule.members.of kind, MemberOf acf kind name id := by
  have users := @memberOk_iff _ acf .uag rule.members.uags id
  have hosts := @memberOk_iff _ acf .hag rule.members.hags id
  unfold RuleOf.admits
  rw [Bool.and_eq_true, Bool.and_eq_true]
  constructor
  · rintro ⟨⟨lists, user⟩, host⟩
    refine ⟨lists, fun kind => ?_⟩
    cases kind with
    | uag => exact users.mp user
    | hag => exact hosts.mp host
  · rintro ⟨lists, all⟩
    exact ⟨⟨lists, users.mpr (all .uag)⟩, hosts.mpr (all .hag)⟩

theorem mem_namedGroups {kind : GroupKind} {clauses : List Clause} {name : String} :
    name ∈ namedGroups kind clauses ↔ ∃ c ∈ clauses, c.kind = kind ∧ name ∈ c.names := by
  unfold namedGroups
  simp only [List.mem_flatMap, List.mem_filter, decide_eq_true_eq]
  constructor
  · rintro ⟨c, ⟨member, isKind⟩, named⟩
    exact ⟨c, member, isKind, named⟩
  · rintro ⟨c, member, isKind, named⟩
    exact ⟨c, ⟨member, isKind⟩, named⟩

/-- Some group is named, and by each kind of clause there is. -/
def namesGroups (clauses : List Clause) : Prop :=
  (∃ c ∈ clauses, c.names ≠ []) ∧ ∀ c ∈ clauses, namedGroups c.kind clauses ≠ []

/-- The kind's clauses name groups, and none of these has a member. -/
def namesNobody (acf : AcfOf μ) (clauses : List Clause) (kind : GroupKind) : Prop :=
  namedGroups kind clauses ≠ [] ∧ ∀ name ∈ namedGroups kind clauses, ∀ members, acf.groups kind name = some members → members = []

theorem Permits.namesGroups {acf : AcfOf μ} {clauses : List Clause} {id : Identity} (permits : Permits acf clauses id) :
    namesGroups clauses := by
  refine ⟨permits.1, fun c member absent => ?_⟩
  obtain ⟨c', inside, kind, name, named, -⟩ := permits.2 c member
  have listed := mem_namedGroups.mpr ⟨c', inside, kind, named⟩
  rw [absent] at listed
  exact absurd listed List.not_mem_nil

/-- Whoever the merged lists of such a block admit, the block permits. -/
theorem permits_of_admits {acf : Acf} {clauses : List Clause} {id : Identity} (names : namesGroups clauses)
    (all : ∀ kind, namedGroups kind clauses = [] ∨ ∃ name ∈ namedGroups kind clauses, MemberOf acf kind name id) :
    Permits acf clauses id := by
  refine ⟨names.1, fun c member => ?_⟩
  rcases all c.kind with absent | ⟨name, named, isMember⟩
  · exact absurd absent (names.2 c member)
  · obtain ⟨c', inside, kind, listed⟩ := mem_namedGroups.mp named
    exact ⟨c', inside, kind, name, listed, isMember⟩

/-- Somebody the merged list of a kind admits, unless its groups are without members. -/
theorem exists_member {acf : Acf} {clauses : List Clause} {kind : GroupKind} (present : ¬ namesNobody acf clauses kind) :
    ∃ member : Option String, ∀ id : Identity, id.of kind = member →
      namedGroups kind clauses = [] ∨ ∃ name ∈ namedGroups kind clauses, MemberOf acf kind name id := by
  by_cases absent : namedGroups kind clauses = []
  · exact ⟨none, fun id _ => Or.inl absent⟩
  · unfold namesNobody at present
    push Not at present
    obtain ⟨name, named, members, group, nonempty⟩ := present absent
    obtain ⟨member, inside⟩ := List.exists_mem_of_ne_nil members nonempty
    exact ⟨member, fun id isIt => Or.inr ⟨name, named, members, member, group, isIt, inside⟩⟩

/-- A rule with a membership block fails closed exactly if it grants no write, or a
kind of its clauses names only groups without members, or each kind of clause it has
names a group and there is one. -/
theorem membership_fails_closed_iff {text : String} {acf : Acf} (accepted : parseAcf text = .ok acf) :
    ∃ written, parseWritten text = .ok written ∧ acf = written.map merged ∧
      ∀ asg rules, written.asgs asg = some rules → ∀ rule ∈ rules, ∀ clauses, rule.members = some clauses →
        ((∀ op id asl, op ≠ .get → (rule.map merged).grants acf op id asl = true → Permits acf clauses id) ↔
          (rule.ops.put = false ∧ rule.ops.rpc = false) ∨ (∃ kind, namesNobody acf clauses kind) ∨ namesGroups clauses) := by
  have same := parseText_same merged_hom text
  change parseAcf text = (parseWritten text).map _ at same
  rw [accepted] at same
  cases parsed : parseWritten text with
  | error e =>
    rw [parsed] at same
    cases same
  | ok written =>
    rw [parsed] at same
    cases same
    refine ⟨written, rfl, rfl, fun asg rules _ rule _ clauses block => ?_⟩
    have lists : ∀ kind, (rule.map merged).members.of kind = namedGroups kind clauses := by
      intro kind
      rw [RuleOf.map, block, merged_of]
    constructor
    · intro closed
      by_contra otherwise
      push Not at otherwise
      obtain ⟨writes, somebody, unnamed⟩ := otherwise
      obtain ⟨op, isWrite, listed⟩ : ∃ op, op ≠ Operation.get ∧ rule.ops.lists op = true := by
        cases put : rule.ops.put with
        | true => exact ⟨.put, by simp, put⟩
        | false => exact ⟨.rpc, by simp, by simpa [OpSet.lists] using writes put⟩
      obtain ⟨user, users⟩ := exists_member (somebody .uag)
      obtain ⟨host, hosts⟩ := exists_member (somebody .hag)
      have granted : (rule.map merged).grants (written.map merged) op ⟨host, user⟩ rule.asl = true := by
        rw [RuleOf.grants, Bool.and_eq_true]
        refine ⟨by simp [RuleOf.considered, RuleOf.map], admits_iff.mpr ⟨listed, fun kind => ?_⟩⟩
        rw [lists kind]
        cases kind with
        | uag => exact users _ rfl
        | hag => exact hosts _ rfl
      exact unnamed (closed op _ rule.asl isWrite granted).namesGroups
    · rintro condition op id asl isWrite granted
      rw [RuleOf.grants, Bool.and_eq_true] at granted
      obtain ⟨listed, members⟩ := admits_iff.mp granted.2
      rcases condition with readOnly | ⟨kind, nonempty, nobody⟩ | named
      · exfalso
        have absent : (rule.map merged).ops.lists op = false := by
          cases op with
          | get => exact absurd rfl isWrite
          | put => exact readOnly.1
          | rpc => exact readOnly.2
        rw [absent] at listed
        cases listed
      · exfalso
        rcases members kind with absent | ⟨name, isNamed, group, member, found, -, inside⟩
        · exact nonempty (lists kind ▸ absent)
        · rw [nobody name (lists kind ▸ isNamed) group found] at inside
          exact absurd inside List.not_mem_nil
      · refine permits_of_admits named fun kind => ?_
        rw [← lists kind]
        exact members kind

/-- A clause that names no group lets everybody write. -/
theorem empty_clause_grants_everybody :
    ∃ acf written rule, parseAcf "ASG(G)\x7bRULE(0,WRITE)\x7bUAG()\x7d\x7d" = .ok acf ∧
      parseWritten "ASG(G)\x7bRULE(0,WRITE)\x7bUAG()\x7d\x7d" = .ok written ∧ written.asgs "G" = some [rule] ∧
      rule.members = some [⟨.uag, []⟩] ∧ (rule.map merged).grants acf .put ⟨none, none⟩ 0 = true ∧
      ¬ Permits acf [⟨.uag, []⟩] ⟨none, none⟩ := by
  refine ⟨_, _, _, rfl, rfl, rfl, rfl, rfl, ?_⟩
  rintro ⟨⟨c, member, named⟩, -⟩
  rw [List.mem_singleton] at member
  exact named (member ▸ rfl)

theorem membership_fails_closed_alice :
    ∃ acf, parseAcf "UAG(a)\x7balice\x7dASG(G)\x7bRULE(0,WRITE)\x7bUAG(a)\x7d\x7d" = .ok acf ∧
      ∃ rule : RuleOf (Option (List Clause)), rule.members = some [⟨.uag, ["a"]⟩] ∧
        (rule.map merged).grants acf .put ⟨none, some "alice"⟩ 0 = true ∧
        ∀ op id asl, op ≠ .get → (rule.map merged).grants acf op id asl = true → Permits acf [⟨.uag, ["a"]⟩] id := by
  have accepted : ∃ acf, parseAcf "UAG(a)\x7balice\x7dASG(G)\x7bRULE(0,WRITE)\x7bUAG(a)\x7d\x7d" = .ok acf ∧
      acf.groups .uag "a" = some ["alice"] := ⟨_, rfl, rfl⟩
  obtain ⟨acf, parsed, group⟩ := accepted
  obtain ⟨written, parsedWritten, -, closed⟩ := membership_fails_closed_iff parsed
  have rules : ∃ rule, written.asgs "G" = some [rule] ∧ rule.members = some [⟨.uag, ["a"]⟩] ∧ rule.ops.put = true ∧
      rule.asl = 0 := by
    cases parsedWritten
    exact ⟨_, rfl, rfl, rfl, rfl⟩
  obtain ⟨rule, found, block, writes, level⟩ := rules
  refine ⟨acf, parsed, rule, block, ?_, ?_⟩
  · simp [RuleOf.grants, RuleOf.considered, RuleOf.admits, RuleOf.map, OpSet.lists, memberOk, block, writes, level, group,
      merged, namedGroups]
  · refine (closed "G" [rule] found rule List.mem_cons_self _ block).mpr (Or.inr (Or.inr ⟨⟨_, List.mem_cons_self, by simp⟩, ?_⟩))
    intro c member
    rw [List.mem_singleton.mp member]
    simp [namedGroups]

end Spvirit.Gateway
