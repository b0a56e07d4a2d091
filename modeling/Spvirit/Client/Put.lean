import Spvirit.Wire.Frame
import Spvirit.Wire.Packet

/-! A client's PUT over a pooled connection, re-run at most once. What the pool, the network and the
server do is given. -/

namespace Spvirit.Client

open ByteOrder

inductive PvGetError where
  | io (text : String)
  | timeout (context : String)
  | search (context : String)
  | protocol (text : String)
  | decode (text : String)
  | codec (e : DecodeError)
  deriving DecidableEq, Repr

/-- The text holds the given one somewhere. -/
def textContains : List Char → List Char → Bool
  | [], wanted => wanted.isEmpty
  | c :: cs, wanted => wanted.isPrefixOf (c :: cs) || textContains cs wanted

/-- Errors worth one retry when they hit a reused connection. -/
def isReuseFailure : PvGetError → Bool
  | .io _ | .timeout _ => true
  | .protocol m | .decode m => textContains m.toList "Unknown SID".toList
  | _ => false

/-- A status reply that refuses a channel or the INIT of an operation. -/
def isServerRefusal : PvGetError → Bool
  | .protocol m | .decode m =>
    ["create_channel error:", "GET init error:", "PUT init error:", "GET_FIELD error:"].any fun marker =>
      textContains m.toList marker.toList
  | _ => false

def encodeOpRequest (command : UInt8) (sid ioid : UInt32) (subcmd : UInt8) (extra : List UInt8) (version : UInt8)
    (isBe : Bool) : List UInt8 :=
  let payload := toBytes isBe 4 sid.toNat ++ toBytes isBe 4 ioid.toNat ++ [subcmd] ++ extra
  pushHeader false isBe false version command (UInt32.ofNat payload.length) ++ payload

def encodePutRequest (sid ioid : UInt32) (subcmd : UInt8) (extra : List UInt8) (version : UInt8) (isBe : Bool) : List UInt8 :=
  encodeOpRequest 11 sid ioid subcmd extra version isBe

def commandOf (raw : List UInt8) : Option PvaPacketCommand := (PvaPacket.tryNew raw).bind PvaPacket.decodePayload

def isInitReply (ioid : UInt32) (raw : List UInt8) : Bool :=
  match commandOf raw with
  | some (.op op) => op.command = 11 && op.ioid = ioid && op.subcmd &&& 0x08 ≠ 0
  | _ => false

def isPutReply (ioid : UInt32) (raw : List UInt8) : Bool :=
  match commandOf raw with
  | some (.op op) => op.command = 11 && op.ioid = ioid && op.subcmd = 0x00
  | _ => false

/-- Frames are read until one is the awaited; behind the last stands what ends the wait. -/
structure Incoming where
  frames : List (List UInt8)
  stop : PvGetError

def readUntil (incoming : Incoming) (awaited : List UInt8 → Bool) : Except PvGetError (List UInt8) :=
  match incoming.frames.find? awaited with
  | some raw => .ok raw
  | none => .error incoming.stop

def decodeInitIntrospection (raw : List UInt8) (label : String) : Except PvGetError StructureDesc :=
  match PvaPacket.tryNew raw with
  | none => .error (.decode s!"{label} init response is {raw.length} bytes, shorter than the 8-byte PVA header")
  | some packet =>
    match packet.decodePayload with
    | none => .error (.decode (label ++ " init response decode failed"))
    | some (.op op) =>
      match op.status with
      | some st =>
        if st.code ≠ 0 then
          .error (.protocol (label ++ " init error: " ++ st.message.getD ("code=" ++ toString st.code.toNat)))
        else (op.introspection.map .ok).getD (.error (.decode ("missing " ++ label ++ " introspection")))
      | none => (op.introspection.map .ok).getD (.error (.decode ("missing " ++ label ++ " introspection")))
    | some _ => .error (.protocol ("unexpected " ++ label ++ " init response"))

/-- The status behind the request id and the subcommand of a response. The only error
is a frame of fewer bytes than needed. -/
def decodeOpResponseStatus (raw : List UInt8) (isBe : Bool) : Except (Nat × Nat) (Option PvaStatus) :=
  match PvaHeader.tryNew raw with
  | none => .error (8, raw.length)
  | some header =>
    let payloadLen := header.payloadLength.toNat
    if raw.length < 8 + payloadLen then .error (8 + payloadLen, raw.length)
    else
      let payload := (raw.drop 8).take payloadLen
      if payload.length < 5 then .error (5, payload.length)
      else .ok (decodeStatus (payload.drop 5) isBe).1

def ensureStatusOk (raw : List UInt8) (isBe : Bool) (label : String) : Except PvGetError Unit :=
  match decodeOpResponseStatus raw isBe with
  | .error (needed, available) => .error (.protocol s!"truncated: need {needed} bytes, {available} available")
  | .ok none => .ok ()
  | .ok (some st) =>
    if st.code = 0 then .ok ()
    else .error (.protocol (label ++ " failed: " ++ st.message.getD ("code=" ++ toString st.code.toNat)))

/-- What befalls one attempt: the connection it gets, taken from the pool or dialled,
its byte order, the channel's sid, the writes and the frames that come in. A write that
fails may have sent some of its bytes. -/
structure Network where
  acquired : Except PvGetError Bool
  isBe : Bool
  sid : Except PvGetError UInt32
  ioid : UInt32
  initWrite : Option String
  initReplies : Incoming
  valueWrite : Option (String × Nat)
  replies : Incoming
  destroyWrite : Bool

/-- The INIT of the operation and its reply: the descriptor the server answers with. -/
def Network.init (net : Network) : Except PvGetError StructureDesc :=
  match net.initWrite with
  | some e => .error (.io e)
  | none => (readUntil net.initReplies (isInitReply net.ioid)).bind fun raw => decodeInitIntrospection raw "PUT"

/-- One run of the operation: its marks, the bytes of the value message it wrote, the
reply it went by, and its result. `encodeFailed` is only there to be spoken about: it says
that the error is of the encoder and not of the connection. -/
structure OpRun where
  committed : Bool := false
  reusable : Bool := false
  encodeFailed : Bool := false
  written : Nat := 0
  reply : Option (List UInt8) := none
  result : Except PvGetError Unit

section

variable (encodePutPayload : StructureDesc → Bool → Except String (List UInt8))

/-- INIT, its reply, the value message, its reply. The operation commits just before the value is written. -/
def putOp (net : Network) (sid : UInt32) : OpRun :=
  match net.init with
  | .error e => { result := .error e }
  | .ok desc =>
    match encodePutPayload desc net.isBe with
    | .error e =>
      { reusable := net.destroyWrite, encodeFailed := true, result := .error (.protocol ("put encode: " ++ e)) }
    | .ok payload =>
      let req := encodePutRequest sid net.ioid 0x00 payload 2 net.isBe
      match net.valueWrite with
      | some (e, sent) => { committed := true, written := min sent req.length, result := .error (.io e) }
      | none =>
        match readUntil net.replies (isPutReply net.ioid) with
        | .error e => { committed := true, written := req.length, result := .error e }
        | .ok raw =>
          { committed := true
            reusable := net.destroyWrite
            written := req.length
            reply := some raw
            result := ensureStatusOk raw net.isBe "PUT" }

/-- One attempt: whether its connection came from the pool, the run of the operation
if it got that far, how it ended, and whether the connection goes back to the pool. -/
structure Attempt where
  reused : Bool
  run : Option OpRun
  result : Except PvGetError Unit
  released : Bool

namespace Attempt

def written (a : Attempt) : Nat := (a.run.map OpRun.written).getD 0

def committed (a : Attempt) : Bool := (a.run.map OpRun.committed).getD false

def encodeFailed (a : Attempt) : Bool := (a.run.map OpRun.encodeFailed).getD false

def reply (a : Attempt) : Option (List UInt8) := a.run.bind OpRun.reply

end Attempt

/-- A connection is kept behind a success or a local failure if the operation marked it
reusable, and behind a refusal in any case. -/
def OpRun.keepsConnection (run : OpRun) : Bool :=
  match run.result with
  | .ok _ => run.reusable
  | .error e => ! isReuseFailure e && (isServerRefusal e || run.reusable)

/-- The retry dials, so only a first attempt can have a reused connection. -/
def attempt (first : Bool) (net : Network) : Attempt :=
  match net.acquired with
  | .error e => ⟨false, none, .error e, false⟩
  | .ok pooled =>
    match net.sid with
    | .error e => ⟨first && pooled, none, .error e, ! isReuseFailure e && isServerRefusal e⟩
    | .ok sid =>
      let run := putOp encodePutPayload net sid
      ⟨first && pooled, some run, run.result, run.keepsConnection⟩

/-- An attempt is repeated if it was on a reused connection, had not committed, and its error
is taken for one of the connection. -/
def Attempt.retries (a : Attempt) : Bool :=
  match a.result with
  | .ok _ => false
  | .error e => isReuseFailure e && a.reused && ! a.committed

/-- A call of pvput: its attempts and its result. -/
structure Call where
  attempts : List Attempt
  result : Except PvGetError Unit

def pvput (resolved : Except PvGetError Unit) (first second : Network) : Call :=
  match resolved with
  | .error e => ⟨[], .error e⟩
  | .ok _ =>
    let a := attempt encodePutPayload true first
    if a.retries then
      let b := attempt encodePutPayload false second
      ⟨[a, b], b.result⟩
    else ⟨[a], a.result⟩

end

/-- The payload the header of a frame announces. -/
def payloadOf (raw : List UInt8) (header : PvaHeader) : List UInt8 := (raw.drop 8).take header.payloadLength.toNat

/-- The status byte of the frame, behind request id and subcommand, says success. -/
def SaysSuccess (raw : List UInt8) : Prop :=
  ∃ header, PvaHeader.tryNew raw = some header ∧
    ((payloadOf raw header)[5]? = some 0xFF ∨ (payloadOf raw header)[5]? = some 0x00)

/-- A whole frame whose payload ends behind its subcommand. -/
def Bare (raw : List UInt8) : Prop :=
  ∃ header, PvaHeader.tryNew raw = some header ∧ header.payloadLength.toNat = 5 ∧ 13 ≤ raw.length

/-- The value message is written on one connection at most, the operation re-run at most
once, before a byte of that message and after a reused connection failed, which an error of
the encoder is not, and a call succeeds only by a status that says so. -/
structure Call.AtMostOnce (c : Call) : Prop where
  oneConnection : (c.attempts.filter fun a => 0 < a.written).length ≤ 1
  onceMore : c.attempts.length ≤ 2
  rerun : ∀ a b rest, c.attempts = a :: b :: rest →
    a.written = 0 ∧ a.reused = true ∧ a.encodeFailed = false ∧ ∃ e, a.result = .error e
  status : c.result = .ok () → ∃ a ∈ c.attempts, ∃ raw, a.reply = some raw ∧ SaysSuccess raw

section

variable (encode : StructureDesc → Bool → Except String (List UInt8))

/-- On this connection the put comes to the end of its INIT. -/
def Network.Describes (net : Network) (pooled : Bool) (desc : StructureDesc) : Prop :=
  net.acquired = .ok pooled ∧ (∃ sid, net.sid = .ok sid) ∧ net.init = .ok desc

/-- On this connection the put comes as far as this reply to its value message. -/
def Network.AnsweredBy (net : Network) (raw : List UInt8) : Prop :=
  (∃ pooled desc payload, net.Describes pooled desc ∧ encode desc net.isBe = .ok payload) ∧ net.valueWrite = none ∧
    net.replies.frames.find? (isPutReply net.ioid) = some raw

/-- The connection comes from the pool, and the value is refused by the encoder in words
that the retry takes for a stale sid. -/
def Network.Misread (net : Network) : Prop :=
  ∃ desc e, net.Describes true desc ∧ encode desc net.isBe = .error e ∧
    isReuseFailure (.protocol ("put encode: " ++ e)) = true

end

variable {encode : StructureDesc → Bool → Except String (List UInt8)} {net : Network} {first : Bool} {raw : List UInt8}

theorem ensureStatusOk_bare (bare : Bare raw) (isBe : Bool) (label : String) :
    ensureStatusOk raw isBe label = .ok () := by
  obtain ⟨header, parsed, five, long⟩ := bare
  have payload : ((raw.drop 8).take 5).drop 5 = [] := by simp
  have length : ¬ ((raw.drop 8).take 5).length < 5 := by
    rw [List.length_take, List.length_drop]
    omega
  simp only [ensureStatusOk, decodeOpResponseStatus, parsed, five, if_neg (show ¬ raw.length < 8 + 5 by omega),
    if_neg length, payload]
  rfl

theorem Bare.not_saysSuccess (bare : Bare raw) : ¬ SaysSuccess raw := by
  obtain ⟨header, parsed, five, -⟩ := bare
  rintro ⟨other, parsed', success⟩
  cases parsed.symm.trans parsed'
  have none : (payloadOf raw header)[5]? = none := List.getElem?_eq_none (by simp [payloadOf, five])
  rw [none] at success
  rcases success with no | no <;> cases no

theorem decodeStatus_code (code : UInt8) (rest : List UInt8) (isBe : Bool) (other : code ≠ 0xFF) :
    ∃ message stack, (decodeStatus (code :: rest) isBe).1 = some ⟨code, message, stack⟩ := by
  unfold decodeStatus
  dsimp only
  rw [if_neg other]
  split
  · exact ⟨_, _, rfl⟩
  · split <;> exact ⟨_, _, rfl⟩

theorem saysSuccess_of_ok {isBe : Bool} {label : String} (ok : ensureStatusOk raw isBe label = .ok ())
    (full : ¬ Bare raw) : SaysSuccess raw := by
  unfold ensureStatusOk decodeOpResponseStatus at ok
  cases parsed : PvaHeader.tryNew raw with
  | none => simp [parsed] at ok
  | some header =>
    simp only [parsed] at ok
    by_cases short : raw.length < 8 + header.payloadLength.toNat
    · simp [short] at ok
    have length : (payloadOf raw header).length = header.payloadLength.toNat := by
      rw [payloadOf, List.length_take, List.length_drop]
      omega
    rw [if_neg short, ← payloadOf] at ok
    by_cases few : (payloadOf raw header).length < 5
    · simp [few] at ok
    rw [if_neg few] at ok
    refine ⟨header, parsed, ?_⟩
    cases status : (payloadOf raw header).drop 5 with
    | nil =>
      have five := List.drop_eq_nil_iff.mp status
      exact absurd ⟨header, parsed, by omega, by omega⟩ full
    | cons code rest =>
      have here : (payloadOf raw header)[5]? = some code := by
        rw [← List.head?_drop, status, List.head?_cons]
      rw [here]
      by_cases bare : code = 0xFF
      · exact Or.inl (congrArg some bare)
      · obtain ⟨message, stack, said⟩ := decodeStatus_code code rest isBe bare
        simp only [status, said] at ok
        split_ifs at ok with zero
        exact Or.inr (congrArg some zero)

theorem readUntil_ok {incoming : Incoming} {awaited : List UInt8 → Bool} :
    readUntil incoming awaited = .ok raw ↔ incoming.frames.find? awaited = some raw := by
  unfold readUntil
  cases found : incoming.frames.find? awaited <;> simp

/-- The three ends of an attempt: the reply to the value message, an error of the encoder,
or an error of the connection. -/
theorem attempt_cases {a : Attempt} (made : attempt encode first net = a) :
    (∃ raw, net.AnsweredBy encode raw ∧ a.reply = some raw ∧ a.committed = true ∧
      a.result = ensureStatusOk raw net.isBe "PUT") ∨
    (∃ pooled desc e, net.Describes pooled desc ∧ encode desc net.isBe = .error e ∧ a.reused = (first && pooled) ∧
      a.committed = false ∧ a.encodeFailed = true ∧ a.reply = none ∧ a.written = 0 ∧
      a.result = .error (.protocol ("put encode: " ++ e))) ∨
    ((∀ raw, ¬ net.AnsweredBy encode raw) ∧ ¬ net.Misread encode ∧ a.encodeFailed = false ∧ a.reply = none ∧
      (∃ e, a.result = .error e) ∧ (a.committed = false → a.written = 0)) := by
  -- an attempt that does not come to the end of its INIT
  have early : (∀ pooled desc, ¬ net.Describes pooled desc) →
      (∀ raw, ¬ net.AnsweredBy encode raw) ∧ ¬ net.Misread encode := by
    refine fun never => ⟨?_, ?_⟩
    · rintro raw ⟨⟨pooled, desc, _, described, _⟩, _⟩
      exact never pooled desc described
    · rintro ⟨desc, _, described, _⟩
      exact never true desc described
  rw [← made]
  unfold attempt
  cases acquired : net.acquired with
  | error e =>
    obtain ⟨unanswered, readable⟩ := early fun _ _ described => nomatch acquired.symm.trans described.1
    exact Or.inr (Or.inr ⟨unanswered, readable, rfl, rfl, ⟨e, rfl⟩, fun _ => rfl⟩)
  | ok pooled =>
    dsimp only
    cases known : net.sid with
    | error e =>
      obtain ⟨unanswered, readable⟩ := early fun _ _ ⟨_, ⟨_, same⟩, _⟩ => nomatch known.symm.trans same
      exact Or.inr (Or.inr ⟨unanswered, readable, rfl, rfl, ⟨e, rfl⟩, fun _ => rfl⟩)
    | ok sid =>
      dsimp only [putOp]
      cases init : net.init with
      | error e =>
        obtain ⟨unanswered, readable⟩ := early fun _ _ ⟨_, _, same⟩ => nomatch init.symm.trans same
        exact Or.inr (Or.inr ⟨unanswered, readable, rfl, rfl, ⟨e, rfl⟩, fun _ => rfl⟩)
      | ok desc =>
        have described : net.Describes pooled desc := ⟨acquired, ⟨sid, known⟩, init⟩
        dsimp only
        cases encoded : encode desc net.isBe with
        | error e => exact Or.inr (Or.inl ⟨pooled, desc, e, described, encoded, rfl, rfl, rfl, rfl, rfl, rfl⟩)
        | ok payload =>
          have readable : ¬ net.Misread encode := by
            rintro ⟨_, _, ⟨_, _, same⟩, failed, _⟩
            cases init.symm.trans same
            cases encoded.symm.trans failed
          dsimp only
          cases sent : net.valueWrite with
          | some failure =>
            refine Or.inr (Or.inr ⟨?_, readable, rfl, rfl, ⟨_, rfl⟩, fun no => nomatch no⟩)
            exact fun _ ⟨_, same, _⟩ => nomatch sent.symm.trans same
          | none =>
            dsimp only
            cases read : readUntil net.replies (isPutReply net.ioid) with
            | error e =>
              refine Or.inr (Or.inr ⟨?_, readable, rfl, rfl, ⟨_, rfl⟩, fun no => nomatch no⟩)
              exact fun _ ⟨_, _, found⟩ => nomatch read.symm.trans (readUntil_ok.mpr found)
            | ok raw =>
              exact Or.inl ⟨raw, ⟨⟨pooled, desc, payload, described, encoded⟩, sent, readUntil_ok.mp read⟩, rfl, rfl, rfl⟩

theorem Network.AnsweredBy.unique {raw' : List UInt8} (answered : net.AnsweredBy encode raw)
    (answered' : net.AnsweredBy encode raw') : raw = raw' :=
  Option.some.inj (answered.2.2.symm.trans answered'.2.2)

theorem Network.Describes.unique {pooled pooled' : Bool} {desc desc' : StructureDesc} (described : net.Describes pooled desc)
    (described' : net.Describes pooled' desc') : pooled = pooled' ∧ desc = desc' :=
  ⟨Except.ok.inj (described.1.symm.trans described'.1), Except.ok.inj (described.2.2.symm.trans described'.2.2)⟩

/-- An attempt that succeeds went by a status exactly if the reply it may have got is not bare. -/
theorem attempt_status_iff :
    ((attempt encode first net).result = .ok () →
      ∃ raw, (attempt encode first net).reply = some raw ∧ SaysSuccess raw) ↔
    ∀ raw, net.AnsweredBy encode raw → ¬ Bare raw := by
  rcases @attempt_cases encode net first _ rfl with ⟨raw, answered, reply, -, result⟩ |
    ⟨pooled, desc, e, described, failed, -, -, -, -, -, result⟩ | ⟨unanswered, -, -, -, ⟨e, result⟩, -⟩
  · rw [result, reply]
    constructor
    · intro status other answered' bare
      cases answered.unique answered'
      obtain ⟨_, same, success⟩ := status (ensureStatusOk_bare bare _ _)
      cases same
      exact bare.not_saysSuccess success
    · exact fun full ok => ⟨raw, rfl, saysSuccess_of_ok ok (full raw answered)⟩
  · rw [result]
    refine iff_of_true (fun no => nomatch no) ?_
    rintro raw ⟨⟨_, _, _, described', encoded⟩, _⟩
    cases (described.unique described').2
    cases failed.symm.trans encoded
  · rw [result]
    exact iff_of_true (fun no => nomatch no) fun raw answered => absurd answered (unanswered raw)

theorem Attempt.retries_iff {a : Attempt} : a.retries = true ↔
    ∃ e, a.result = .error e ∧ isReuseFailure e = true ∧ a.reused = true ∧ a.committed = false := by
  unfold Attempt.retries
  cases a.result <;> simp [and_assoc]

/-- An attempt that is repeated wrote nothing of the value and read no reply to it, and its
error is of the encoder exactly if it is misread. -/
theorem attempt_retried (again : (attempt encode true net).retries = true) :
    (attempt encode true net).written = 0 ∧ (attempt encode true net).reply = none ∧
      ((attempt encode true net).encodeFailed = true → net.Misread encode) := by
  obtain ⟨e, failed, failure, reused, uncommitted⟩ := Attempt.retries_iff.mp again
  rcases @attempt_cases encode net true _ rfl with ⟨raw, -, -, committed, -⟩ |
    ⟨pooled, desc, text, described, encoder, origin, -, -, unread, nothing, result⟩ | ⟨-, -, network, unread, -, nothing⟩
  · exact Bool.noConfusion (uncommitted.symm.trans committed)
  · rw [reused, Bool.true_and] at origin
    cases failed.symm.trans result
    exact ⟨nothing, unread, fun _ => ⟨desc, text, origin ▸ described, encoder, failure⟩⟩
  · exact ⟨nothing uncommitted, unread, fun no => Bool.noConfusion (network.symm.trans no)⟩

theorem misread_retries (misread : net.Misread encode) :
    (attempt encode true net).retries = true ∧ (attempt encode true net).encodeFailed = true := by
  obtain ⟨desc, e, described, failed, text⟩ := misread
  rcases @attempt_cases encode net true _ rfl with ⟨raw, ⟨⟨_, _, _, described', encoded⟩, _⟩, _⟩ |
    ⟨pooled, desc', e', described', failed', reused, uncommitted, encoder, -, -, result⟩ | ⟨_, readable, _⟩
  · cases (described.unique described').2
    cases failed.symm.trans encoded
  · obtain ⟨rfl, rfl⟩ := described.unique described'
    cases failed.symm.trans failed'
    exact ⟨Attempt.retries_iff.mpr ⟨_, result, text, reused, uncommitted⟩, encoder⟩
  · exact absurd ⟨desc, e, described, failed, text⟩ readable

/-- A server's response to the request 1, with the given subcommand and what follows it. -/
def serverFrame (subcmd : UInt8) (rest : List UInt8) : List UInt8 :=
  pushHeader true false false 2 11 (UInt32.ofNat (5 + rest.length)) ++ [1, 0, 0, 0, subcmd] ++ rest

/-- A connection on which all goes well, the reply to the value being the given frame. -/
def healthy (pooled : Bool) (reply : List UInt8) : Network where
  acquired := .ok pooled
  isBe := false
  sid := .ok 7
  ioid := 1
  initWrite := none
  initReplies := ⟨[serverFrame 0x08 [0xFF, 0x80, 0x00, 0x00]], .timeout "read_until"⟩
  valueWrite := none
  replies := ⟨[reply], .timeout "read_until"⟩
  destroyWrite := true

end Spvirit.Client
