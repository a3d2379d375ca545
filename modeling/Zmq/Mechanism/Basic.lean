import Zmq.Engine.Basic

/-! # Security mechanisms

What the mechanisms share: the metadata of `mechanism_t` and the ZAP client of
`zap_client_t`. The ZAP pipe belongs to the session; a mechanism gets it with each call.
It has no watermark, so that a request is always written. Monitor events are left out, and
so are the property maps that only messages to the application read.
-/

namespace Zmq

/-- The socket types of `options_t::type`, but for the draft ones. -/
inductive SocketType where
  | pair
  | pub
  | sub
  | req
  | rep
  | dealer
  | router
  | pull
  | push
  | xpub
  | xsub
  | stream
  deriving Repr, DecidableEq

/-- `mechanism_t::socket_type_string`, in ASCII. -/
def SocketType.name : SocketType → List UInt8
  | .pair => [80, 65, 73, 82]
  | .pub => [80, 85, 66]
  | .sub => [83, 85, 66]
  | .req => [82, 69, 81]
  | .rep => [82, 69, 80]
  | .dealer => [68, 69, 65, 76, 69, 82]
  | .router => [82, 79, 85, 84, 69, 82]
  | .pull => [80, 85, 76, 76]
  | .push => [80, 85, 83, 72]
  | .xpub => [88, 80, 85, 66]
  | .xsub => [88, 83, 85, 66]
  | .stream => [83, 84, 82, 69, 65, 77]

/-- The types a peer may have, in `mechanism_t::check_socket_type`. -/
def SocketType.peers : SocketType → List SocketType
  | .req => [.rep, .router]
  | .rep => [.req, .dealer]
  | .dealer => [.rep, .dealer, .router]
  | .router => [.req, .dealer, .router]
  | .push => [.pull]
  | .pull => [.push]
  | .pub | .xpub => [.sub, .xsub]
  | .sub | .xsub => [.pub, .xpub]
  | .pair => [.pair]
  | .stream => []

/-- `options_t` as mechanisms read it. -/
structure MechanismOptions where
  type : SocketType := .pair
  recvRoutingId : Bool := false
  routingId : List UInt8 := []
  appMetadata : List (List UInt8 × List UInt8) := []
  zapDomain : List UInt8 := []
  zapEnforceDomain : Bool := false

namespace MechanismOptions

def checkSocketType (options : MechanismOptions) (type : List UInt8) : Bool :=
  options.type.peers.any (·.name == type)

def zapRequired (options : MechanismOptions) : Bool := options.zapDomain != []

end MechanismOptions

def putUint32 (n : Nat) : List UInt8 :=
  [.ofNat (n >>> 24), .ofNat (n >>> 16), .ofNat (n >>> 8), .ofNat n]

def getUint32 (bytes : List UInt8) : Nat :=
  (bytes.take 4).foldl (fun n b => n * 256 + b.toNat) 0

/-- `"Socket-Type"` and `"Identity"`. -/
def socketTypeName : List UInt8 := [83, 111, 99, 107, 101, 116, 45, 84, 121, 112, 101]
def identityName : List UInt8 := [73, 100, 101, 110, 116, 105, 116, 121]

/-! ## Metadata -/

def addProperty (name value : List UInt8) : List UInt8 :=
  UInt8.ofNat name.length :: name ++ putUint32 value.length ++ value

def cStr (bytes : List UInt8) : List UInt8 := bytes.takeWhile (· != 0)

namespace MechanismOptions

def addBasicProperties (options : MechanismOptions) : List UInt8 :=
  addProperty socketTypeName options.type.name ++
  (if options.type = .req ∨ options.type = .dealer ∨ options.type = .router then
    addProperty identityName options.routingId else []) ++
  options.appMetadata.flatMap fun p => addProperty (cStr p.1) (cStr p.2)

def makeCommandWithBasicProperties (options : MechanismOptions) (command : List UInt8) : Msg :=
  .initSize (command ++ options.addBasicProperties)

end MechanismOptions

/-- One turn of the loop of `parse_metadata`: a property, or a `break` with some bytes
    left. -/
inductive Property where
  | found (name value rest : List UInt8)
  | stopped (left : Nat)
  deriving Repr, DecidableEq

def nextProperty : List UInt8 → Property
  | [] => .stopped 0
  | n :: rest =>
    if rest.length < n.toNat then .stopped rest.length
    else
      let after := rest.drop n.toNat
      if after.length < 4 then .stopped after.length
      else
        let body := after.drop 4
        if body.length < getUint32 after then .stopped body.length
        else .found (rest.take n.toNat) (body.take (getUint32 after))
          (body.drop (getUint32 after))

/-- The loop of `mechanism_t::parse_metadata`, over at most `n` properties. It returns
    whether all is well and the routing id of the peer. -/
def parseProperties (options : MechanismOptions) :
    Nat → List UInt8 → List UInt8 → Bool × List UInt8
  | 0, bytes, id => (bytes.isEmpty, id)
  | n + 1, bytes, id =>
    if bytes.length ≤ 1 then (bytes.isEmpty, id)
    else
      match nextProperty bytes with
      | .stopped left => (left == 0, id)
      | .found name value rest =>
        if name = identityName ∧ options.recvRoutingId then
          parseProperties options n rest value
        else if name = socketTypeName then
          if options.checkSocketType value then parseProperties options n rest id
          else (false, id)
        else parseProperties options n rest id

def parseMetadata (options : MechanismOptions) (bytes id : List UInt8) : Bool × List UInt8 :=
  parseProperties options bytes.length bytes id

/-- `mechanism_base_t::check_basic_command_structure`. -/
def Msg.basicCommandStructure (m : Msg) : Bool :=
  decide (1 < m.size) && decide ((m.data.getD 0 0).toNat < m.size)

def Msg.startsWith (m : Msg) (name : List UInt8) : Bool := m.data.take name.length == name

/-! ## ZAP -/

/-- The ZAP pipe of a session and the handler at its other end. -/
structure ZapPipe where
  /-- A socket is bound to `inproc://zeromq.zap.01`. -/
  handler : Bool
  /-- The handler wants a routing id. -/
  recvRoutingId : Bool := false
  /-- `_zap_pipe` is not null. -/
  attached : Bool := false
  /-- `_in_active` of the session's end: it has not found the pipe empty. -/
  inActive : Bool := true
  /-- Frames that can be read and frames that were written. -/
  inbound : List Msg := []
  outbound : List Msg := []

namespace ZapPipe

variable (z : ZapPipe)

/-- `session_base_t::zap_connect`: whether it succeeds. -/
def zapConnect : Bool × ZapPipe :=
  if z.attached then (true, z)
  else if z.handler then
    (true, { z with
      attached := true
      inActive := true
      inbound := []
      outbound := if z.recvRoutingId then [{ flags := MsgFlag.routingId }] else [] })
  else (false, z)

def readZapMsg : (Rc × Msg) × ZapPipe :=
  if z.attached then
    match z.inbound with
    | [] => ((.again, .init), { z with inActive := false })
    | m :: rest => ((.ok, m), { z with inbound := rest })
  else ((.failed, .init), z)

/-- `pipe_t::check_read` of the ZAP pipe, if there is one. -/
def checkRead : ZapPipe :=
  if z.attached && z.inbound.isEmpty then { z with inActive := false } else z

def arrive (frames : List Msg) : ZapPipe :=
  { z with inActive := true, inbound := z.inbound ++ frames }

/-- The loop of `receive_and_process_zap_reply` over the last `n` frames of a reply: all of
    them but the last have MORE. -/
def readReply : Nat → ZapPipe → (Rc × List Msg) × ZapPipe
  | 0, z => ((.ok, []), z)
  | n + 1, z =>
    match z.readZapMsg with
    | ((.ok, m), z) =>
      if m.more = (n != 0) then
        match readReply n z with
        | ((rc, rest), z) => ((rc, m :: rest), z)
      else ((.failed, [m]), z)
    | ((rc, _), z) => ((rc, []), z)

end ZapPipe

/-- The version and the request id, `"1.0"` and `"1"`. -/
def zapVersion : List UInt8 := [49, 46, 48]
def zapId : List UInt8 := [49]

/-- `zap_client_t` and the fields of `mechanism_t` it sets. -/
structure ZapClient where
  options : MechanismOptions
  peerAddress : List UInt8 := []
  statusCode : List UInt8 := []
  userId : List UInt8 := []
  routingId : List UInt8 := []

def isStatusCode (code : List UInt8) : Bool :=
  match code with
  | [c, 48, 48] => 50 ≤ c && c ≤ 53
  | _ => false

def okCode : List UInt8 := [50, 48, 48]

namespace ZapClient

variable (c : ZapClient)

/-- The frames of `zap_client_t::send_zap_request`. -/
def request (mechanism : List UInt8) (credentials : List (List UInt8)) : List Msg :=
  let bodies := [[], zapVersion, zapId, c.options.zapDomain, c.peerAddress, c.options.routingId,
    mechanism] ++ credentials
  bodies.dropLast.map (fun body => { Msg.initSize body with flags := MsgFlag.more }) ++
    bodies.getLast?.toList.map Msg.initSize

/-- `zap_client_t::send_zap_request`, on a pipe that is there. -/
def sendZapRequest (mechanism : List UInt8) (credentials : List (List UInt8))
    (z : ZapPipe) : ZapPipe :=
  { z with outbound := z.outbound ++ c.request mechanism credentials }

/-- What `receive_and_process_zap_reply` does with the seven frames. The status code and the
    user id are kept even if the metadata is wrong. -/
def processReply : List Msg → Bool × ZapClient
  | [delimiter, version, id, code, _, user, metadata] =>
    if delimiter.data = [] ∧ version.data = zapVersion ∧ id.data = zapId ∧
        isStatusCode code.data = true then
      let parsed := parseMetadata c.options metadata.data c.routingId
      (parsed.1, { c with
        statusCode := code.data
        userId := user.data
        routingId := parsed.2 })
    else (false, c)
  | _ => (false, c)

/-- `zap_client_t::receive_and_process_zap_reply`; `again` is its 1. -/
def receiveAndProcessZapReply (z : ZapPipe) : Rc × ZapClient × ZapPipe :=
  match z.readReply 7 with
  | ((.ok, frames), z) =>
    match c.processReply frames with
    | (true, c) => (.ok, c, z)
    | (false, c) => (.failed, c, z)
  | ((rc, _), z) => (rc, c, z)

end ZapClient

/-- The code of a mechanism, with the ZAP pipe of its session. -/
abbrev MechanismM (M : Type) := Lib.Program Fault (M × ZapPipe)

/-- The calls on a mechanism that can use ZAP. `nextHandshakeCommand` gets the random bytes
    it may draw. -/
structure ZapMechanism (M : Type) where
  status : M → Status
  nextHandshakeCommand : List UInt8 → MechanismM M (Rc × Msg)
  processHandshakeCommand : Msg → MechanismM M (Rc × Msg)
  zapMsgAvailable : MechanismM M Rc

inductive HandshakeState where
  | waitingForHello
  | sendingWelcome
  | waitingForInitiate
  | waitingForZapReply
  | sendingReady
  | sendingError
  | errorSent
  | ready
  deriving Repr, DecidableEq

structure CommonHandshake extends ZapClient where
  state : HandshakeState := .waitingForHello
  zapReplyOkState : HandshakeState

namespace CommonHandshake

def status (h : CommonHandshake) : Status :=
  match h.state with
  | .ready => .ready
  | .errorSent => .error
  | _ => .handshaking

/-- `zap_client_common_handshake_t::handle_zap_status_code`. A temporary failure is not told
    to the client. -/
def handleZapStatusCode (h : CommonHandshake) : CommonHandshake :=
  match h.statusCode.head? with
  | some 50 => { h with state := h.zapReplyOkState }
  | some 51 => { h with state := .errorSent }
  | _ => { h with state := .sendingError }

def receiveAndProcessZapReply : MechanismM CommonHandshake Rc := do
  let (h, z) ← get
  assert (h.state == .waitingForZapReply) .receiveAndProcessZapReply
  let (rc, c, z) := h.toZapClient.receiveAndProcessZapReply z
  let h := { h with toZapClient := c }
  set (if rc = .ok then h.handleZapStatusCode else h, z)
  pure rc

def failedOnly (rc : Rc) : Rc := if rc = .failed then .failed else .ok

/-- `zap_client_common_handshake_t::zap_msg_available`. Its assertion is also the first thing
    that it calls checks. -/
def zapMsgAvailable : MechanismM CommonHandshake Rc := do
  let rc ← receiveAndProcessZapReply
  pure (failedOnly rc)

/-- `produce_error` of both servers. -/
def produceError : MechanismM CommonHandshake (Rc × Msg) := do
  let (h, _) ← get
  assert (h.statusCode.length == 3) .produceError
  pure (.ok, .initSize ([5, 69, 82, 82, 79, 82] ++ 3 :: h.statusCode))

end CommonHandshake

/-- What `process_handshake_command` does with its message: a command that was processed is
    replaced by an empty message. -/
def consumed {M : Type} (m : Msg) (x : MechanismM M Rc) : MechanismM M (Rc × Msg) := do
  let rc ← x
  pure (rc, if rc = .ok then .init else m)

end Zmq
