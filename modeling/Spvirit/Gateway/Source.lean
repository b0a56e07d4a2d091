import Spvirit.Gateway.Access

/-! The gateway's source: bindings, negative cache, cached reads and pumps. Requests interleave where the code waits. -/

namespace Spvirit.Gateway

/-- The upstream name a downstream name stands for, unless it is denied. -/
def AccessControl.target (ac : AccessControl) (pv : String) (id : Identity) : Option String :=
  match ac.decide .get pv id with
  | .deny => none
  | .allow => some pv
  | .allowAliased real => some real

/-- What an upstream server answered, with the client and the name it was asked by and
the descriptor the downstream name was bound with at that moment. -/
structure Fetched (δ π : Type) where
  payload : π
  clientName : String
  realName : String
  inForce : Option δ

structure Binding (δ π : Type) where
  clientName : String
  realName : String
  descriptor : δ
  boundAt : Nat
  /-- The last upstream answer stored here, and when. -/
  lastGet : Option (Nat × Fetched δ π)

def Binding.hold {δ π : Type} (b : Binding δ π) (now : Nat) (f : Fetched δ π) : Binding δ π :=
  { b with lastGet := some (now, f) }

/-- What a client wants once its name is claimed. `init` enters a monitor into the
registry, `subscribe` gets the stream for its pump, `snapshot` is the read of its
first update. -/
inductive Request where
  | search
  | get
  | snapshot
  | put
  | init
  | subscribe
  deriving DecidableEq, Repr

/-- Where a request waits. -/
inductive Stage (δ π : Type) where
  /-- For the lookups of the upstream name. -/
  | claiming (target : String)
  | claimed
  /-- For the upstream's answer. -/
  | fetching (clientName realName : String)
  | fetched (f : Fetched δ π)
  /-- With a stream of the upstream name, to be given to a pump. -/
  | streaming (realName : String)
  | done

structure Call (δ π : Type) where
  id : Identity
  name : String
  request : Request
  stage : Stage δ π

inductive Event (δ π : Type) where
  /-- A lookup is answered from the negative cache. -/
  | missing (id : Identity) (name : String)
  /-- No upstream client has the name. -/
  | missed (realName : String)
  /-- A get or put goes upstream. -/
  | upstream (id : Identity) (name realName : String)
  /-- A read is answered from the binding. -/
  | cached (id : Identity) (name : String) (f : Fetched δ π)
  /-- A monitor is given a payload of an upstream name. -/
  | delivered (id : Identity) (name realName : String)

structure SourceConfig where
  access : AccessControl
  getholdoff : Nat
  bindingTtl : Nat
  negativeTtl : Nat

structure SourceState (δ π : Type) where
  bindings : String → Option (Binding δ π)
  /-- The deadlines of the negative cache. -/
  negative : String → Option Nat
  calls : Nat → Option (Call δ π)
  monitors : String → List Identity
  /-- The upstream name of the stream the name's pump reads. -/
  pump : String → Option String
  /-- What has happened, the latest first. -/
  log : List (Event δ π)

/-- A step of one call, by its number, or of the gateway itself. -/
inductive SourceStep (δ π : Type) where
  | begin (call : Nat) (id : Identity) (name : String) (request : Request) (now : Nat)
  /-- The lookups are over: the first client that has the name, and its descriptor. -/
  | settle (call : Nat) (outcome : Option (String × δ)) (now : Nat)
  | perform (call : Nat) (now : Nat)
  | answer (call : Nat) (payload : π)
  | store (call : Nat) (now : Nat)
  | ensurePump (call : Nat)
  /-- The upstream of a monitor died. -/
  | retire (name : String)
  /-- The negative cache was full. -/
  | evict (name : String)
  /-- A payload arrives on the pump's stream. -/
  | tick (name : String)
  | leave (name : String) (id : Identity)
  | pumpEnds (name : String)

variable {δ π : Type} [DecidableEq δ]

/-- Bind the name, or refresh the binding it has in place. A cached read outlives the
refresh only if the descriptor is the same. -/
def recordBinding (clientName target : String) (descriptor : δ) (now : Nat) : Option (Binding δ π) → Binding δ π
  | some b =>
    if b.clientName = clientName ∧ b.realName = target then
      { b with
        descriptor
        boundAt := now
        lastGet := if b.descriptor = descriptor then b.lastGet else none }
    else ⟨clientName, target, descriptor, now, none⟩
  | none => ⟨clientName, target, descriptor, now, none⟩

namespace SourceState

def initial : SourceState δ π := ⟨fun _ => none, fun _ => none, fun _ => none, fun _ => [], fun _ => none, []⟩

variable (cfg : SourceConfig) (s : SourceState δ π)

def isMissing (name : String) (now : Nat) : Bool := (s.negative name).any fun deadline => now < deadline

/-- The binding answers a claim without going upstream. -/
def bound (name target : String) (now : Nat) : Bool :=
  (s.bindings name).any fun b => b.realName = target ∧ now - b.boundAt < cfg.bindingTtl

/-- The read that is held off, with the binding it is served under. -/
def hit (name : String) (now : Nat) : Option (Binding δ π × Fetched δ π) :=
  match s.bindings name with
  | none => none
  | some b =>
    match b.lastGet with
    | none => none
    | some (fetchedAt, f) => if 0 < cfg.getholdoff ∧ now < fetchedAt + cfg.getholdoff then some (b, f) else none

def setCall (k : Nat) (call : Call δ π) : SourceState δ π := { s with calls := Function.update s.calls k (some call) }

def move (k : Nat) (call : Call δ π) (stage : Stage δ π) : SourceState δ π := s.setCall k { call with stage }

def note (e : Event δ π) : SourceState δ π := { s with log := e :: s.log }

/-- A claim up to its lookups: the negative cache, the access decision, the binding. -/
def claim (id : Identity) (name : String) (now : Nat) : Option (Event δ π) × Stage δ π :=
  if s.isMissing name now then (some (.missing id name), .done)
  else
    match cfg.access.target name id with
    | none => (none, .done)
    | some target => (none, if s.bound cfg name target now then .claimed else .claiming target)

/-- A monitor's first update is a read like any other. -/
def answered (call : Call δ π) (realName : String) : List (Event δ π) :=
  if call.request = .snapshot then [.delivered call.id call.name realName] else []

def read (k : Nat) (call : Call δ π) (now : Nat) : SourceState δ π :=
  match s.hit cfg call.name now with
  | some (_, f) =>
    let s := s.note (.cached call.id call.name f)
    { s with log := answered call f.realName ++ s.log }.move k call .done
  | none =>
    match s.bindings call.name with
    | none => s.move k call .done
    | some b => (s.note (.upstream call.id call.name b.realName)).move k call (.fetching b.clientName b.realName)

/-- The operation of the source itself, once the name is claimed. -/
def perform (k : Nat) (call : Call δ π) (now : Nat) : SourceState δ π :=
  match call.request with
  | .search => s.move k call .done
  | .get | .snapshot => s.read cfg k call now
  | .put =>
    if cfg.access.decide .put call.name call.id = .deny then s.move k call .done
    else
      match s.bindings call.name with
      | none => s.move k call .done
      | some b => (s.note (.upstream call.id call.name b.realName)).move k call .done
  | .init =>
    { s with monitors := Function.update s.monitors call.name (s.monitors call.name ++ [call.id]) }.move k call .done
  | .subscribe =>
    match s.bindings call.name with
    | none => s.move k call .done
    | some b => s.move k call (.streaming b.realName)

/-- The name is bound to the first client that has it, or its miss is remembered. -/
def settle (k : Nat) (call : Call δ π) (target : String) (outcome : Option (String × δ)) (now : Nat) :
    SourceState δ π :=
  match outcome with
  | some (clientName, descriptor) =>
    let b := recordBinding clientName target descriptor now (s.bindings call.name)
    { s with bindings := Function.update s.bindings call.name (some b) }.move k call .claimed
  | none =>
    { s with
      negative := Function.update s.negative call.name (some (now + cfg.negativeTtl))
      log := .missed target :: s.log }.move k call .done

def answer (k : Nat) (call : Call δ π) (clientName realName : String) (payload : π) : SourceState δ π :=
  s.move k call (.fetched ⟨payload, clientName, realName, (s.bindings call.name).map Binding.descriptor⟩)

/-- The answer is stored in whatever binding the name has by now. -/
def store (k : Nat) (call : Call δ π) (f : Fetched δ π) (now : Nat) : SourceState δ π :=
  let bindings :=
    if 0 < cfg.getholdoff then Function.update s.bindings call.name ((s.bindings call.name).map (·.hold now f))
    else s.bindings
  { s with bindings, log := answered call f.realName ++ s.log }.move k call .done

/-- A live pump of the name stays, and the new stream is dropped. -/
def ensurePump (k : Nat) (call : Call δ π) (realName : String) : SourceState δ π :=
  { s with pump := Function.update s.pump call.name (some ((s.pump call.name).getD realName)) }.move k call .done

def tick (name : String) : SourceState δ π :=
  match s.pump name with
  | some realName => { s with log := (s.monitors name).map (Event.delivered · name realName) ++ s.log }
  | none => s

/-- A call that waits elsewhere does not move. -/
def step (s : SourceState δ π) : SourceStep δ π → SourceState δ π
  | .begin k id name request now =>
    match s.calls k with
    | some _ => s
    | none =>
      let (event, stage) := s.claim cfg id name now
      { s with log := event.toList ++ s.log }.setCall k ⟨id, name, request, stage⟩
  | .settle k outcome now =>
    match s.calls k with
    | none => s
    | some call =>
      match call.stage with
      | .claiming target => s.settle cfg k call target outcome now
      | _ => s
  | .perform k now =>
    match s.calls k with
    | none => s
    | some call =>
      match call.stage with
      | .claimed => s.perform cfg k call now
      | _ => s
  | .answer k payload =>
    match s.calls k with
    | none => s
    | some call =>
      match call.stage with
      | .fetching clientName realName => s.answer k call clientName realName payload
      | _ => s
  | .store k now =>
    match s.calls k with
    | none => s
    | some call =>
      match call.stage with
      | .fetched f => s.store cfg k call f now
      | _ => s
  | .ensurePump k =>
    match s.calls k with
    | none => s
    | some call =>
      match call.stage with
      | .streaming realName => s.ensurePump k call realName
      | _ => s
  | .retire name => { s with bindings := Function.update s.bindings name none }
  | .evict name => { s with negative := Function.update s.negative name none }
  | .tick name => s.tick name
  | .leave name id => { s with monitors := Function.update s.monitors name ((s.monitors name).erase id) }
  | .pumpEnds name => { s with pump := Function.update s.pump name none }

def run (s : SourceState δ π) (schedule : List (SourceStep δ π)) : SourceState δ π := schedule.foldl (step cfg) s

end SourceState

end Spvirit.Gateway
