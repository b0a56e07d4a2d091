import Spvirit.Payload.DeltaWalk
import Spvirit.Payload.Equality
import Spvirit.Payload.Filter

/-! Monitor subscriptions of a process variable: what each is owed for a new
payload, and what a client's messages do to it. -/

namespace Spvirit

open ByteOrder

def maxPipelineWindow : Nat := 4096

structure MonitorSub where
  connId : UInt64
  ioid : UInt32
  version : UInt8
  isBe : Bool
  running : Bool
  pipelineEnabled : Bool
  nfree : Nat
  filteredDesc : Option StructureDesc
  lastSnapshot : Option NtPayload

/-- A subscription is addressed by its connection and its request. -/
def MonitorSub.key (sub : MonitorSub) : UInt64 × UInt32 := (sub.connId, sub.ioid)

/-- The connection's own record of a subscription. -/
structure MonitorState where
  running : Bool
  pipelineEnabled : Bool
  nfree : Nat

/-- The whole payload, narrowed if the client asked for it. -/
def monitorFrame (clock : Int64 × Int32) (sub : MonitorSub) (p : NtPayload) : List UInt8 :=
  match sub.filteredDesc with
  | some desc => encodeMonitorDataResponseFiltered clock sub.ioid 0x00 p desc sub.version sub.isBe
  | none => encodeMonitorDataResponsePayload clock sub.ioid 0x00 p sub.version sub.isBe

/-- The frame a subscriber is owed, or none if its view of the payload is unchanged. -/
def buildMonitorFrame (clock : Int64 × Int32) (sub : MonitorSub) (p : NtPayload) : Option (List UInt8) :=
  match sub.lastSnapshot with
  | none => some (monitorFrame clock sub p)
  | some prev =>
    match sub.filteredDesc with
    | some desc =>
      if ¬ ntPayloadChangedOnDesc clock prev p desc sub.isBe then none
      else some (encodeMonitorDataResponseFiltered clock sub.ioid 0x00 p desc sub.version sub.isBe)
    | none =>
      if prev.eq p then none
      else some (encodeMonitorDataResponsePayload clock sub.ioid 0x00 p sub.version sub.isBe)

/-- One subscriber's share of a fan-out. Only a narrowed frame is built at once. -/
structure PendingFrame where
  connId : UInt64
  ioid : UInt32
  version : UInt8
  isBe : Bool
  pipelined : Bool
  prebuilt : Option (List UInt8)

/-- The subscriber is running and, if it is pipelined, has credit. -/
def MonitorSub.ready (sub : MonitorSub) : Bool := sub.running && !(sub.pipelineEnabled && sub.nfree = 0)

/-- A frame costs a credit and moves the baseline. -/
def MonitorSub.charge (sub : MonitorSub) (p : NtPayload) : MonitorSub :=
  { sub with
    nfree := if sub.pipelineEnabled ∧ 0 < sub.nfree then sub.nfree - 1 else sub.nfree
    lastSnapshot := some p }

/-- What `plan_fanout` does for one subscriber. -/
def planFor (clock : Int64 × Int32) (p : NtPayload) (sub : MonitorSub) : MonitorSub × Option PendingFrame :=
  let pending (prebuilt : Option (List UInt8)) : PendingFrame :=
    ⟨sub.connId, sub.ioid, sub.version, sub.isBe, sub.pipelineEnabled, prebuilt⟩
  if ¬ sub.running then (sub, none)
  else if sub.pipelineEnabled ∧ sub.nfree = 0 then (sub, none)
  else if sub.filteredDesc.isSome then
    match buildMonitorFrame clock sub p with
    | some bytes => (sub.charge p, some (pending (some bytes)))
    | none => (sub, none)
  else if sub.lastSnapshot.any (·.eq p) then (sub, none)
  else (sub.charge p, some (pending none))

def planFanout (clock : Int64 × Int32) (subs : List MonitorSub) (p : NtPayload) :
    List MonitorSub × List PendingFrame :=
  (subs.map fun sub => (planFor clock p sub).1, subs.filterMap fun sub => (planFor clock p sub).2)

/-- The frame of a planned share: what was not built under the lock is encoded after it. -/
def PendingFrame.encode (clock : Int64 × Int32) (p : NtPayload) (f : PendingFrame) : List UInt8 :=
  f.prebuilt.getD (encodeMonitorDataResponsePayload clock f.ioid 0x00 p f.version f.isBe)

/-- What `send_monitor_update_for` does to the subscriber it has found. -/
def sendTo (clock : Int64 × Int32) (p : NtPayload) (sub : MonitorSub) : MonitorSub × Option (List UInt8 × Bool) :=
  if ¬ sub.running then (sub, none)
  else if sub.pipelineEnabled ∧ sub.nfree = 0 then (sub, none)
  else
    match buildMonitorFrame clock sub p with
    | none => (sub, none)
    | some msg => (sub.charge p, some (msg, sub.pipelineEnabled))

/-- The first subscriber of a connection and request. -/
def atFirst {β : Type} (key : UInt64 × UInt32) (change : MonitorSub → MonitorSub × Option β) :
    List MonitorSub → List MonitorSub × Option β
  | [] => ([], none)
  | sub :: subs =>
    if sub.key = key then ((change sub).1 :: subs, (change sub).2)
    else (sub :: (atFirst key change subs).1, (atFirst key change subs).2)

def sendMonitorUpdateFor (clock : Int64 × Int32) (subs : List MonitorSub) (key : UInt64 × UInt32) (p : NtPayload) :
    List MonitorSub × Option (List UInt8 × Bool) :=
  atFirst key (sendTo clock p) subs

/-- A client's count replaces the credit, up to the ceiling. Pipelining is only ever switched on. -/
def MonitorSub.update (running : Bool) (nfree : Option Nat) (pipelineEnabled : Option Bool) (sub : MonitorSub) :
    MonitorSub :=
  { sub with
    running := running
    nfree := match nfree with | some v => min v maxPipelineWindow | none => sub.nfree
    pipelineEnabled := sub.pipelineEnabled || pipelineEnabled.getD false }

def updateMonitorSubscription (subs : List MonitorSub) (key : UInt64 × UInt32) (running : Bool) (nfree : Option Nat)
    (pipelineEnabled : Option Bool) : List MonitorSub :=
  (atFirst key (fun sub => (sub.update running nfree pipelineEnabled, (none : Option Unit))) subs).1

def countAt (isBe : Bool) (body : List UInt8) : Nat := ofBytes isBe (body.take 4)

/-- The window a client asks for when it opens a subscription: the last four bytes. -/
def requestedWindow (isBe : Bool) (subcmd : UInt8) (body : List UInt8) : Nat :=
  if subcmd &&& 0x80 ≠ 0 ∧ 4 ≤ body.length then min (countAt isBe (body.drop (body.length - 4))) maxPipelineWindow else 0

/-- The subscription a client's opening message adds to the registry. -/
def openedSub (connId : UInt64) (ioid : UInt32) (version : UInt8) (isBe : Bool) (subcmd : UInt8) (body : List UInt8)
    (filteredDesc : Option StructureDesc) : MonitorSub :=
  ⟨connId, ioid, version, isBe, false, subcmd &&& 0x80 ≠ 0, requestedWindow isBe subcmd body, filteredDesc, none⟩

/-- A message on an open subscription: start, stop, acknowledgement. -/
structure MonitorControl where
  subcmd : UInt8
  body : List UInt8

namespace MonitorControl

def start (c : MonitorControl) : Bool := c.subcmd &&& 0x44 = 0x44
def stop (c : MonitorControl) : Bool := c.subcmd &&& 0x44 = 0x04
def pipelineAck (c : MonitorControl) : Bool := c.subcmd &&& 0x80 ≠ 0

/-- The count an acknowledgement carries. -/
def nfree (c : MonitorControl) (isBe : Bool) : Option Nat :=
  if c.pipelineAck ∧ 4 ≤ c.body.length then some (countAt isBe c.body) else none

/-- Neither a start nor a stop leaves the subscription as the connection knows it. -/
def running (c : MonitorControl) (state : Option MonitorState) : Bool :=
  if c.start then true else if c.stop then false else (state.map (·.running)).getD true

end MonitorControl

/-- The connection's record adds the count to what is left, up to the ceiling. -/
def MonitorState.apply (isBe : Bool) (c : MonitorControl) (s : MonitorState) : MonitorState where
  running := c.running (some s)
  pipelineEnabled := s.pipelineEnabled || c.pipelineAck
  nfree :=
    match c.nfree isBe with
    | some v => if c.pipelineAck then min (s.nfree + v) maxPipelineWindow else min v maxPipelineWindow
    | none => s.nfree

end Spvirit
