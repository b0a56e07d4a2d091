import Spvirit.Ioc.Model

/-! The processing algorithm of the IOC engine, over the records of one lock set. -/

namespace Spvirit.Ioc.Engine

def maxDepth : Nat := 64

inductive ProcError where
  | tooDeep (depth : Nat) (record : String)
  deriving DecidableEq, Repr

/-- The lock set of a record and the place in it. -/
structure RecordId where
  set : Nat
  slot : Nat
  deriving DecidableEq, Repr

inductive AsyncOutcome where
  | complete
  | pending
  deriving DecidableEq

/-- What a device support did with the context it was handed. -/
structure Started (ω : Type) where
  outcome : AsyncOutcome
  events : List (String × NtScalar) := []
  deferred : List RecordId := []
  trace : List String := []
  world : ω

/-- Device support bound to a record, over an outside world `ω`. It matches its own pushes of the
depth and takes no queued event, as the context asks. -/
structure AsyncSupport (ω : Type) where
  start : String → Bool → ω → Started ω

structure Host (n : Nat) (ω : Type) where
  asyncRegistry : Fin n → Option (AsyncSupport ω)
  unixNanos : ω → Nat × ω

def plainHost (n : Nat) : Host n Unit where
  asyncRegistry _ := none
  unixNanos world := (0, world)

/-- What happened in a pass, as the invariants speak of it. -/
inductive Mark (n : Nat) where
  /-- A record was entered, over the records then on the processing stack. -/
  | entered (id : Fin n) (stack : List (Fin n))
  | pending (id : Fin n)
  | completed (id : Fin n)
  | gaveUp (id : Fin n)
  /-- The limit ladder was tried on these cells. -/
  | ladder (id : Fin n) (cells : Cells)
  /-- The alarm of a pass was committed, with the contributions that the pass made. -/
  | committed (id : Fin n) (contributions : List Alarm) (alarm : Alarm)
  | disabled (id : Fin n) (alarm : Alarm)
  deriving DecidableEq

/-- The records of the lock set and the context. The last three fields record the run and are
read by no step. -/
structure Pass (n : Nat) (ω : Type) where
  cells : Fin n → Cells
  world : ω
  events : List (String × NtScalar) := []
  deferred : List RecordId := []
  trace : List String := []
  depth : Nat := 0
  stack : List (Fin n) := []
  contributed : Fin n → List Alarm := fun _ => []
  log : List (Mark n) := []

/-- A new context over the records as they are. -/
def freshPass {n : Nat} {ω : Type} (cells : Fin n → Cells) (world : ω) : Pass n ω := { cells, world }

abbrev Action (n : Nat) (ω α : Type) := Fallible (Pass n ω) ProcError α

variable {n : Nat} {ω : Type} (db : Fin n → Config (Fin n)) (host : Host n ω) (id : Fin n)

namespace Pass

def update (f : Cells → Cells) (s : Pass n ω) : Pass n ω :=
  { s with cells := Function.update s.cells id (f (s.cells id)) }

def mark (m : Mark n) (s : Pass n ω) : Pass n ω := { s with log := s.log ++ [m] }

def traceLine (text : String) (s : Pass n ω) : Pass n ω :=
  if (db id).tpro then { s with trace := s.trace ++ [(db id).name ++ text] } else s

def enter (s : Pass n ω) : Pass n ω :=
  { s.mark (.entered id s.stack) with depth := s.depth + 1, stack := id :: s.stack }

def popDepth (s : Pass n ω) : Pass n ω := { s with depth := s.depth - 1, stack := s.stack.tail }

/-- `set_sevr` on the pending alarm of a pass. -/
def contribute (sev : Severity) (cond : Condition) (s : Pass n ω) : Bool × Pass n ω :=
  let result := (s.cells id).setSevr sev cond
  (result.1, { s.update id fun _ => result.2 with
    contributed := Function.update s.contributed id (s.contributed id ++ [(sev, cond)]) })

def checkUdf (s : Pass n ω) : Bool × Pass n ω :=
  if (s.cells id).udf then s.contribute id .invalid .udf else (false, s)

def tryLadder (s : Pass n ω) : Pass n ω :=
  let c := s.cells id
  match limitCrossed (db id) c c.val.asF64 c.stat with
  | some (sev, cond) => ((s.mark (.ladder id c)).contribute id sev cond).2
  | none => s.mark (.ladder id c)

def checkLimits (s : Pass n ω) : Pass n ω :=
  let checked := s.checkUdf id
  if checked.1 then checked.2 else checked.2.tryLadder db id

def resetAlarms (s : Pass n ω) : Bool × Pass n ω :=
  let result := (s.cells id).resetAlarms
  (result.1, s.update id fun _ => result.2)

def postMonitors (alarmChanged : Bool) (s : Pass n ω) : Pass n ω :=
  let c := s.cells id
  if !alarmChanged && !pastMdel (db id) c then s
  else { s.update id (advance (db id)) with events := s.events ++ [((db id).name, toPayload (db id) c)] }

def stamp (s : Pass n ω) : Pass n ω :=
  let now := host.unixNanos s.world
  { s.update id fun c => { c with timeNs := now.1 } with world := now.2 }

def raisePact (s : Pass n ω) : Pass n ω :=
  { s.update id fun c => { c with pact := true } with contributed := Function.update s.contributed id [] }

def clearPact (s : Pass n ω) : Pass n ω := s.update id fun c => { c with pact := false }

def giveUp (s : Pass n ω) : Pass n ω := (s.clearPact id).mark (.gaveUp id)

def complete (s : Pass n ω) : Pass n ω := (s.clearPact id).mark (.completed id)

def clearUdf (s : Pass n ω) : Pass n ω := s.update id fun c => { c with udf := false }

/-- The value of a link is stored, and its severity contributes. -/
def receive (fetched : Value × Severity) (s : Pass n ω) : Pass n ω :=
  let s := s.update id fun c => { c with val := fetched.1 }
  if fetched.2 ≠ .noAlarm then (s.contribute id fetched.2 .link).2 else s

/-- A field is set. The severity and the condition are outputs of the engine. -/
def write (field : Field) (value : Value) (s : Pass n ω) : Pass n ω :=
  match field with
  | .val => (s.update id fun c => { c with val := value.coerceTo (db id).kind, udf := false }).postMonitors db id false
  | .disa => s.update id fun c => { c with disa := value.asI32 }
  | .disv => s.update id fun c => { c with disv := value.asI32 }
  | .hihi => s.update id fun c => { c with hihi := value.asF64 }
  | .high => s.update id fun c => { c with high := value.asF64 }
  | .low => s.update id fun c => { c with low := value.asF64 }
  | .lolo => s.update id fun c => { c with lolo := value.asF64 }
  | .sevr | .stat | .proc => s

def commit (s : Pass n ω) : Bool × Pass n ω :=
  let result := s.resetAlarms id
  (result.1, { result.2.mark (.committed id (s.contributed id) (result.2.cells id).alarm) with
    contributed := Function.update s.contributed id [] })

/-- The part of a body between its input or output and its forward link. -/
def settle (s : Pass n ω) : Pass n ω :=
  let s := s.stamp host id
  let s := if (db id).kind.isAnalogue then s.checkLimits db id else (s.checkUdf id).2
  let committed := s.commit id
  committed.2.postMonitors db id committed.1

/-- The alarm of a disabled record is committed, in place of whatever was pending. -/
def commitDisabled (s : Pass n ω) : Bool × Pass n ω :=
  let s := s.update id fun c =>
    (Cells.setSevr (db id).diss .disable { c with nsev := .noAlarm, nsta := .noAlarm }).2
  let result := s.resetAlarms id
  (result.1, result.2.mark (.disabled id (result.2.cells id).alarm))

/-- A disabled record publishes that it is, if `DISS` says so. -/
def disable (s : Pass n ω) : Pass n ω :=
  let committed := (s.traceLine db id ": disabled (DISA == DISV)").commitDisabled db id
  committed.2.postMonitors db id committed.1

/-- The context as a device support left it. -/
def join (started : Started ω) (s : Pass n ω) : Pass n ω :=
  { s with
    events := s.events ++ started.events
    deferred := s.deferred ++ started.deferred
    trace := s.trace ++ started.trace
    world := started.world }

end Pass

def pushDepth : Action n ω Unit := fun s =>
  if maxDepth ≤ s.depth then (.error (.tooDeep maxDepth (db id).name), s) else (.ok (), s.enter id)

/-- One level of recursion. -/
def nested (inner : Action n ω Unit) : Action n ω Unit := do
  pushDepth db id
  Fallible.afterwards inner Pass.popDepth

section

variable (process : Fin n → Action n ω Unit)

def readLink (target : Fin n) (field : Field) (maximizeSeverity : Bool) (kind : Kind) : Action n ω (Value × Severity) :=
  fun s =>
    (.ok (((s.cells target).readField field).coerceTo kind,
      if maximizeSeverity then (s.cells target).sevr else .noAlarm), s)

/-- The target of a `PP` link is processed before it is read. -/
def fetchLinkValue (link : Link (Fin n)) (kind : Kind) : Action n ω (Value × Severity) :=
  match link with
  | .constant v => pure (v.coerceTo kind, .noAlarm)
  | .unresolved _ => pure (.defaultFor kind, .noAlarm)
  | .db target field true maximizeSeverity => do
    process target
    readLink target field maximizeSeverity kind
  | .db target field false maximizeSeverity => readLink target field maximizeSeverity kind

/-- Writing `PROC` processes the record. -/
def writeField (field : Field) (value : Value) : Action n ω Unit :=
  if field = .proc then process id else Fallible.modify (Pass.write db id field value)

def forwardLink : Action n ω Unit :=
  match (db id).flnk with
  | .db target _ _ _ => process target
  | .constant _ | .unresolved _ => pure ()

def inputBody : Action n ω Unit :=
  if (db id).inp.isConstant then Fallible.modify (Pass.clearUdf id)
  else do
    let fetched ← fetchLinkValue process (db id).inp (db id).kind
    Fallible.modify fun s => (s.clearUdf id).receive id fetched

/-- The desired value of a closed-loop output. -/
def driveOutput : Action n ω Unit :=
  if (db id).closedLoop && !(db id).dol.isConstant then do
    let fetched ← fetchLinkValue process (db id).dol (db id).kind
    Fallible.modify (Pass.receive id fetched)
  else pure ()

def writeOutput : Action n ω Unit :=
  match (db id).out with
  | .db target field processPassive _ => do
    let s ← Fallible.get
    writeField db target process field (s.cells id).val
    if processPassive then process target
  | .constant _ | .unresolved _ => pure ()

def outputBody : Action n ω Unit := do
  driveOutput db id process
  Fallible.modify (Pass.clearUdf id)
  writeOutput db id process

/-- Output or input, as the record's kind is. -/
def transfer : Action n ω Unit :=
  if (db id).kind.isOutput then outputBody db id process else inputBody db id process

/-- The body after the device support, if there is one, is through. A failure gives the
pass up; the forward link runs while `PACT` is set. -/
def finishBody : Action n ω Unit := do
  Fallible.onError (transfer db id process) (Pass.giveUp id)
  Fallible.modify (Pass.settle db host id)
  Fallible.afterwards (forwardLink db id process) (Pass.complete id)

def recordBody : Action n ω Unit := do
  let s ← Fallible.get
  Fallible.modify (Pass.raisePact id)
  match host.asyncRegistry id with
  | none => finishBody db host id process
  | some support =>
    let started := support.start (db id).name (s.cells id).pact s.world
    Fallible.modify (Pass.join started)
    match started.outcome with
    | .pending => Fallible.modify (Pass.mark (.pending id))
    | .complete => finishBody db host id process

/-- `SDIS`, if it is a link, supplies `DISA`. -/
def readSdis : Action n ω Unit :=
  if (db id).sdis.isConstant then pure ()
  else do
    let fetched ← fetchLinkValue process (db id).sdis .longIn
    Fallible.modify (Pass.write db id .disa fetched.1)

/-- A record whose `DISA` equals its `DISV` is disabled. -/
def runEnabled : Action n ω Unit := do
  let s ← Fallible.get
  if (s.cells id).disa = (s.cells id).disv then Fallible.modify (Pass.disable db id)
  else Fallible.afterwards (recordBody db host id process) (Pass.traceLine db id ": process complete")

def processInner : Action n ω Unit := do
  Fallible.modify (Pass.traceLine db id ": process entered")
  readSdis db id process
  runEnabled db host id process

end

/-- `PACT` is the recursion brake. -/
def guarded (inner : Action n ω Unit) : Action n ω Unit := fun s =>
  if (s.cells id).pact then (.ok (), s.traceLine db id ": PACT already set, returning") else inner s

/-- Processing with so many entries left below the cap on the depth. -/
def visit : Nat → Fin n → Action n ω Unit
  | 0, id => guarded db id (Fallible.throw (.tooDeep maxDepth (db id).name))
  | fuel + 1, id => guarded db id (nested db id (processInner db host id (visit fuel)))

def process : Action n ω Unit := fun s => visit db host (maxDepth - s.depth) id s

/-- A record that is not active is left alone. -/
def completeAsync : Action n ω Unit := fun s =>
  if (s.cells id).pact then nested db id (recordBody db host id (visit db host (maxDepth - s.depth - 1))) s
  else (.ok (), s)

section

variable {db host id} {process : Fin n → Action n ω Unit} {inner : Action n ω Unit} {s : Pass n ω}

theorem nested_full (full : maxDepth ≤ s.depth) :
    nested db id inner s = (.error (.tooDeep maxDepth (db id).name), s) :=
  Fallible.bind_error (if_pos full)

theorem nested_room (room : s.depth < maxDepth) :
    nested db id inner s = ((inner (s.enter id)).1, (inner (s.enter id)).2.popDepth) :=
  Fallible.bind_ok (if_neg (by omega))

theorem recordBody_unbound (free : host.asyncRegistry id = none) :
    recordBody db host id process s = finishBody db host id process (s.raisePact id) := by
  unfold recordBody
  rw [free]
  rfl

theorem recordBody_bound {support : AsyncSupport ω} (bound : host.asyncRegistry id = some support) :
    recordBody db host id process s =
      (match (support.start (db id).name (s.cells id).pact s.world).outcome with
        | .pending => Fallible.modify (Pass.mark (.pending id))
        | .complete => finishBody db host id process)
      ((s.raisePact id).join (support.start (db id).name (s.cells id).pact s.world)) := by
  unfold recordBody
  rw [bound]
  rfl

end

end Spvirit.Ioc.Engine
