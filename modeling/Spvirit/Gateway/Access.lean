import Spvirit.Gateway.Acf

/-! Access control of the gateway: read-only mode, then the pvlist, then the access security group. -/

namespace Spvirit.Gateway

/-- A compiled pattern, anchored at both ends: what it matches and what its groups capture. -/
structure Pattern where
  isMatch : String → Bool
  captures : String → Option (Nat → Option String)

inductive PvlistAction where
  | allow
  | deny
  | alias (template : String)
  deriving DecidableEq, Repr

structure PvlistRule where
  pattern : Pattern
  action : PvlistAction
  asg : String
  asl : Nat
  fromHosts : List String

structure Pvlist where
  rules : List PvlistRule

/-- `op` of a request; a monitor counts as a get. -/
inductive Operation where
  | get
  | put
  | rpc
  deriving DecidableEq, Repr

structure Identity where
  host : Option String
  user : Option String
  deriving DecidableEq, Repr

inductive Decision where
  | allow
  | allowAliased (name : String)
  | deny
  deriving DecidableEq, Repr

/-- A backslash and a digit stand for what that group captured; group 0 and one that is not there for nothing. -/
def expandTemplate (caps : Nat → Option String) : List Char → List Char
  | [] => []
  | '\\' :: d :: rest =>
    if d.isDigit then
      (if d.toNat - 48 = 0 then [] else ((caps (d.toNat - 48)).getD "").toList) ++ expandTemplate caps rest
    else '\\' :: expandTemplate caps (d :: rest)
  | c :: rest => c :: expandTemplate caps rest

/-- The security group and level a name is bound to. -/
structure AslBinding where
  asg : String
  asl : Nat
  deriving DecidableEq, Repr

def defaultBinding : AslBinding := ⟨"DEFAULT", 0⟩

/-- A name that survives as itself is a plain allow. -/
def allowDecision (pv survived : String) : Decision := if survived = pv then .allow else .allowAliased survived

structure AccessControl where
  readOnly : Bool
  pvlist : Option Pvlist
  acf : Option Acf

/-- The pattern matches and the host is one of those listed, if any are. -/
def PvlistRule.applies (rule : PvlistRule) (pv : String) (id : Identity) : Bool :=
  rule.pattern.isMatch pv &&
    (rule.fromHosts.isEmpty || id.host.any fun host => rule.fromHosts.any fun listed => listed = host)

/-- The name the rule turns `pv` into, and its binding, unless it denies. -/
def PvlistRule.survives (rule : PvlistRule) (pv : String) : Option (String × AslBinding) :=
  match rule.action with
  | .deny => none
  | .allow => some (pv, ⟨rule.asg, rule.asl⟩)
  | .alias template =>
    match rule.pattern.captures pv with
    | some caps => some (String.ofList (expandTemplate caps template.toList), ⟨rule.asg, rule.asl⟩)
    | none => some (pv, ⟨rule.asg, rule.asl⟩)

def OpSet.lists (ops : OpSet) : Operation → Bool
  | .get => ops.get
  | .put => ops.put
  | .rpc => ops.rpc

def memberOk (group : String → Option (List String)) (names : List String) (member : Option String) : Bool :=
  names.isEmpty || member.any fun m => names.any fun name => (group name).any fun members => members.any (· = m)

/-- The check of a rule's level against that of the binding. -/
def RuleOf.considered (rule : AsgRule) (asl : Nat) : Bool := !decide (asl < rule.asl)

def RuleOf.admits (acf : Acf) (op : Operation) (id : Identity) (rule : AsgRule) : Bool :=
  rule.ops.lists op && memberOk (acf.groups .uag) rule.members.uags id.user &&
    memberOk (acf.groups .hag) rule.members.hags id.host

def RuleOf.grants (acf : Acf) (op : Operation) (id : Identity) (asl : Nat) (rule : AsgRule) : Bool :=
  rule.considered asl && rule.admits acf op id

def acfGrants (acf : Acf) (binding : AslBinding) (op : Operation) (id : Identity) : Bool :=
  match acf.asgs binding.asg with
  | none => false
  | some rules => rules.any fun rule => rule.grants acf op id binding.asl

namespace AccessControl

variable (ac : AccessControl)

/-- The first rule that applies decides; without a rule a proxied name is denied. -/
def pvlistStep (pv : String) (id : Identity) (unmatchedIsDefault : Bool) : Option (String × AslBinding) :=
  match ac.pvlist with
  | none => some (pv, defaultBinding)
  | some pvlist =>
    match pvlist.rules.find? fun rule => rule.applies pv id with
    | none => if unmatchedIsDefault then some (pv, defaultBinding) else none
    | some rule => rule.survives pv

def decideInner (op : Operation) (pv : String) (id : Identity) (unmatchedIsDefault : Bool) : Decision :=
  if ac.readOnly ∧ op ≠ .get then .deny
  else
    match ac.pvlistStep pv id unmatchedIsDefault with
    | none => .deny
    | some (survived, binding) =>
      if op = .get then allowDecision pv survived
      else
        match ac.acf with
        | none => allowDecision pv survived
        | some acf => if acfGrants acf binding op id then allowDecision pv survived else .deny

def decide (op : Operation) (pv : String) (id : Identity) : Decision := ac.decideInner op pv id false

end AccessControl

end Spvirit.Gateway
