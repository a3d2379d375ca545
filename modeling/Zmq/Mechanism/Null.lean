import Zmq.Mechanism.Basic

/-! # The NULL mechanism

`null_mechanism_t`. Without a ZAP domain each side sends READY and waits for the other's;
with one it first asks the ZAP handler.
-/

namespace Zmq

/-- `"\5READY"` and `"\5ERROR"`. -/
def readyCommand : List UInt8 := [5, 82, 69, 65, 68, 89]
def errorCommand : List UInt8 := [5, 69, 82, 82, 79, 82]

structure NullMechanism extends ZapClient where
  readyCommandSent : Bool := false
  errorCommandSent : Bool := false
  readyCommandReceived : Bool := false
  errorCommandReceived : Bool := false
  zapRequestSent : Bool := false
  zapReplyReceived : Bool := false

namespace NullMechanism

def new (options : MechanismOptions) (peerAddress : List UInt8) : NullMechanism :=
  { options := options, peerAddress := peerAddress }

variable (n : NullMechanism)

def status : Status :=
  if n.readyCommandSent && n.readyCommandReceived then .ready
  else if (n.readyCommandSent || n.errorCommandSent) &&
      (n.readyCommandReceived || n.errorCommandReceived) then .error
  else .handshaking

/-- `receive_and_process_zap_reply` and `_zap_reply_received`. -/
def receiveReply (z : ZapPipe) : Rc × NullMechanism × ZapPipe :=
  match n.receiveAndProcessZapReply z with
  | (rc, c, z) => (rc, { n with
      toZapClient := c
      zapReplyReceived := n.zapReplyReceived || rc == .ok }, z)

/-- The end of `next_handshake_command`: READY, ERROR or nothing for a temporary failure. -/
def produceCommand : (Rc × Msg) × NullMechanism :=
  if n.zapReplyReceived && n.statusCode != okCode then
    if n.statusCode != [51, 48, 48] then
      ((.ok, .initSize (errorCommand ++ 3 :: n.statusCode)), { n with errorCommandSent := true })
    else ((.again, .init), { n with errorCommandSent := true })
  else
    ((.ok, n.options.makeCommandWithBasicProperties readyCommand),
      { n with readyCommandSent := true })

def nextHandshakeCommand (z : ZapPipe) : (Rc × Msg) × NullMechanism × ZapPipe :=
  if n.readyCommandSent || n.errorCommandSent then ((.again, .init), n, z)
  else if n.options.zapRequired && !n.zapReplyReceived then
    if n.zapRequestSent then ((.again, .init), n, z)
    else
      match z.zapConnect with
      | (true, z) =>
        let z := n.sendZapRequest [78, 85, 76, 76] [] z
        match { n with zapRequestSent := true }.receiveReply z with
        | (.ok, n, z) => (n.produceCommand.1, n.produceCommand.2, z)
        | (rc, n, z) => ((rc, .init), n, z)
      | (false, z) =>
        if n.options.zapEnforceDomain then ((.failed, .init), n, z)
        else (n.produceCommand.1, n.produceCommand.2, z)
  else (n.produceCommand.1, n.produceCommand.2, z)

def processReadyCommand (m : Msg) : Bool × NullMechanism :=
  let parsed := parseMetadata n.options (m.data.drop 6) n.routingId
  (parsed.1, { n with readyCommandReceived := true, routingId := parsed.2 })

def processErrorCommand (m : Msg) : Bool × NullMechanism :=
  if m.size < 7 then (false, n)
  else if m.size - 7 < (m.data.getD 6 0).toNat then (false, n)
  else (true, { n with errorCommandReceived := true })

def processHandshakeCommand (m : Msg) : (Rc × Msg) × NullMechanism :=
  let answer : Bool × NullMechanism → (Rc × Msg) × NullMechanism
    | (true, n) => ((.ok, .init), n)
    | (false, n) => ((.failed, m), n)
  if n.readyCommandReceived || n.errorCommandReceived then ((.failed, m), n)
  else if m.startsWith readyCommand then answer (n.processReadyCommand m)
  else if m.startsWith errorCommand then answer (n.processErrorCommand m)
  else ((.failed, m), n)

def zapMsgAvailable (z : ZapPipe) : Rc × NullMechanism × ZapPipe :=
  if n.zapReplyReceived then (.failed, n, z)
  else
    match n.receiveReply z with
    | (.failed, n, z) => (.failed, n, z)
    | (_, n, z) => (.ok, n, z)

end NullMechanism

/-- The NULL mechanism as an engine calls it; messages are not changed. -/
def Mechanism.null : Mechanism (NullMechanism × ZapPipe) where
  status k := k.1.status
  nextHandshakeCommand k := k.1.nextHandshakeCommand k.2
  processHandshakeCommand k m :=
    let done := k.1.processHandshakeCommand m
    (done.1, done.2, k.2)
  encode k m := ((.ok, m), k)
  decode k m := ((.ok, m), k)
  zapMsgAvailable k := k.1.zapMsgAvailable k.2
  peerRoutingId k := k.1.routingId
  getUserId k := k.1.userId

end Zmq
