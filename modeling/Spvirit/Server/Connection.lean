import Spvirit.Server.Monitor

/-! The tables of a connection and the registry's subscriptions under the client's messages. -/

namespace Spvirit

/-- The channels of a connection. A channel without bound requests has the empty set. -/
structure ChannelTables where
  cidToSid : UInt32 → Option UInt32
  sidToCid : UInt32 → Option UInt32
  sidToPv : UInt32 → Option String
  ioidToSid : UInt32 → Option UInt32
  sidToIoids : UInt32 → Finset UInt32

namespace ChannelTables

variable (t : ChannelTables)

def empty : ChannelTables := ⟨fun _ => none, fun _ => none, fun _ => none, fun _ => none, fun _ => ∅⟩

def insertChannel (cid sid : UInt32) (pv : String) : ChannelTables :=
  { t with
    cidToSid := Function.update t.cidToSid cid (some sid)
    sidToCid := Function.update t.sidToCid sid (some cid)
    sidToPv := Function.update t.sidToPv sid (some pv) }

/-- The channel is forgotten with the requests bound to it. -/
def removeChannel (cid sid : UInt32) : ChannelTables where
  cidToSid := Function.update t.cidToSid cid none
  sidToCid := Function.update t.sidToCid sid none
  sidToPv := Function.update t.sidToPv sid none
  ioidToSid := fun ioid => if ioid ∈ t.sidToIoids sid then none else t.ioidToSid ioid
  sidToIoids := Function.update t.sidToIoids sid ∅

/-- The row of the client's id is put back if it belongs to a newer channel. -/
def removeChannelIfCurrent (cid sid : UInt32) : ChannelTables × Bool :=
  if t.cidToSid cid = some sid then (t.removeChannel cid sid, true)
  else
    ({ t.removeChannel cid sid with
        cidToSid := Function.update (t.removeChannel cid sid).cidToSid cid (t.cidToSid cid) }, false)

def bindMonitor (ioid sid : UInt32) : ChannelTables :=
  let released :=
    match t.ioidToSid ioid with
    | some old => if old ≠ sid then Function.update t.sidToIoids old ((t.sidToIoids old).erase ioid) else t.sidToIoids
    | none => t.sidToIoids
  { t with
    ioidToSid := Function.update t.ioidToSid ioid (some sid)
    sidToIoids := Function.update released sid (insert ioid (released sid)) }

def unbindMonitor (ioid : UInt32) : ChannelTables :=
  match t.ioidToSid ioid with
  | some sid =>
    { t with
      ioidToSid := Function.update t.ioidToSid ioid none
      sidToIoids := Function.update t.sidToIoids sid ((t.sidToIoids sid).erase ioid) }
  | none => t

def ioidsForSid (sid : UInt32) : Finset UInt32 := t.sidToIoids sid

/-- The channel a subscription runs on, if both the binding and the channel are there. -/
def channelForMonitor (ioid : UInt32) : Option (UInt32 × UInt32) :=
  match t.ioidToSid ioid with
  | some sid => (t.sidToCid sid).map fun cid => (sid, cid)
  | none => none

end ChannelTables

/-- What the task of a connection knows of its requests. -/
structure ConnState where
  channels : ChannelTables
  ioidToDesc : UInt32 → Option StructureDesc
  ioidToPv : UInt32 → Option String
  ioidToMonitor : UInt32 → Option MonitorState

def ConnState.empty : ConnState := ⟨.empty, fun _ => none, fun _ => none, fun _ => none⟩

/-- The rows of the requests that are gone are taken out, but for their channels'. -/
def ConnState.forget (s : ConnState) (gone : UInt32 → Prop) [DecidablePred gone] : ConnState :=
  { s with
    ioidToDesc := fun ioid => if gone ioid then none else s.ioidToDesc ioid
    ioidToPv := fun ioid => if gone ioid then none else s.ioidToPv ioid
    ioidToMonitor := fun ioid => if gone ioid then none else s.ioidToMonitor ioid }

/-- The registry's subscriptions of each process variable. -/
abbrev Monitors := String → List MonitorSub

/-- A connection and the registry. -/
structure Served where
  conn : ConnState
  monitors : Monitors

/-- What the sources answer while a monitor message is handled: the descriptor of the
process variable, the fields the request selects, a snapshot of the value. -/
structure SourceAnswers where
  fullDesc : Option StructureDesc
  requested : Option (List String)
  snapshot : Option NtPayload
  clock : Int64 × Int32

/-- The descriptor to advertise, and the one to narrow frames to. -/
def applyPvRequestFilter (full : StructureDesc) : Option (List String) → StructureDesc × Option StructureDesc
  | some fields => (filterStructureDesc full fields, some (filterStructureDesc full fields))
  | none => (full, none)

section

variable (connId : UInt64) (version : UInt8) (isBe : Bool)

def removeMonitorSubscription (monitors : Monitors) (ioid : UInt32) (pv : String) : Monitors :=
  Function.update monitors pv ((monitors pv).filter fun sub => ¬ sub.key = (connId, ioid))

/-- A monitor is opened: both records are made, and the request is bound to its channel. -/
def monitorInit (s : Served) (sid ioid : UInt32) (pv : String) (subcmd : UInt8) (body : List UInt8) (answers : SourceAnswers) :
    Served :=
  match answers.fullDesc with
  | none => s
  | some full =>
    let narrowed := applyPvRequestFilter full answers.requested
    let sub := openedSub connId ioid version isBe subcmd body narrowed.2
    { conn :=
        { channels := s.conn.channels.bindMonitor ioid sid
          ioidToDesc := Function.update s.conn.ioidToDesc ioid (some narrowed.1)
          ioidToPv := Function.update s.conn.ioidToPv ioid (some pv)
          ioidToMonitor := Function.update s.conn.ioidToMonitor ioid (some ⟨false, sub.pipelineEnabled, sub.nfree⟩) }
      monitors := Function.update s.monitors pv (s.monitors pv ++ [sub]) }

/-- A monitor is ended. The process variable is that of the channel the message names. -/
def monitorDestroy (s : Served) (ioid : UInt32) (pv : String) : Served where
  conn := { s.conn.forget (· = ioid) with channels := s.conn.channels.unbindMonitor ioid }
  monitors := removeMonitorSubscription connId s.monitors ioid pv

/-- A start, stop or acknowledgement; a start is answered with a snapshot. -/
def monitorControl (s : Served) (ioid : UInt32) (pv : String) (c : MonitorControl) (answers : SourceAnswers) : Served :=
  let updated := updateMonitorSubscription (s.monitors pv) (connId, ioid) (c.running (s.conn.ioidToMonitor ioid))
    (c.nfree isBe) (some c.pipelineAck)
  let sent :=
    match answers.snapshot with
    | some p => if c.start then (sendMonitorUpdateFor answers.clock updated (connId, ioid) p).1 else updated
    | none => updated
  { conn :=
      { s.conn with
        ioidToMonitor := Function.update s.conn.ioidToMonitor ioid ((s.conn.ioidToMonitor ioid).map (MonitorState.apply isBe c)) }
    monitors := Function.update s.monitors pv sent }

/-- A message of the client, with the server's id of the channel it makes or names. -/
inductive ClientMessage where
  | createChannel (cid sid : UInt32) (pv : String)
  | monitor (sid ioid : UInt32) (subcmd : UInt8) (body : List UInt8) (answers : SourceAnswers)
  | destroyChannel (cid sid : UInt32)
  | destroyRequest (ioid : UInt32)

/-- A monitor message on the process variable of a channel. -/
def handleMonitor (s : Served) (sid ioid : UInt32) (pv : String) (subcmd : UInt8) (body : List UInt8) (answers : SourceAnswers) :
    Served :=
  if subcmd &&& 0x08 ≠ 0 then monitorInit connId version isBe s sid ioid pv subcmd body answers
  else if subcmd &&& 0x10 ≠ 0 then monitorDestroy connId s ioid pv
  else if subcmd &&& 0x04 ≠ 0 ∨ subcmd &&& 0x80 ≠ 0 then monitorControl connId isBe s ioid pv ⟨subcmd, body⟩ answers
  else s

/-- The channel's requests are forgotten by the connection; the registry is not told. -/
def purgeChannelRequests (s : ConnState) (cid sid : UInt32) : ConnState :=
  { s.forget (· ∈ s.channels.ioidsForSid sid) with channels := (s.channels.removeChannelIfCurrent cid sid).1 }

def handle (s : Served) : ClientMessage → Served
  | .createChannel cid sid pv => { s with conn := { s.conn with channels := s.conn.channels.insertChannel cid sid pv } }
  | .monitor sid ioid subcmd body answers =>
    match s.conn.channels.sidToPv sid with
    | none => s
    | some pv => handleMonitor connId version isBe s sid ioid pv subcmd body answers
  | .destroyChannel cid sid => { s with conn := purgeChannelRequests s.conn cid sid }
  | .destroyRequest ioid =>
    match s.conn.ioidToPv ioid with
    | none => s
    | some pv => monitorDestroy connId s ioid pv

end

end Spvirit
