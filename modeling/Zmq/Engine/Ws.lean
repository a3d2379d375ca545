import Zmq.Engine.Basic

/-! # WebSocket engines

`ws_engine_t` over `stream_engine_base_t`. What the handshake reads is given by the protocols its
headers name and by how it ends. A malformed frame is an error of the protocol here, whatever the
decoder leaves in `errno`.
-/

namespace Zmq

open Lib

/-- What a header can name as the protocol. -/
inductive WsProtocol where
  | zws2
  | zws2Null
  | zws2Plain
  | zws2Curve
  | other
  deriving Repr, DecidableEq

/-- How the part of a handshake that was read ends; frames may follow it in the buffer. -/
inductive HeadersEnd where
  | waiting
  | complete (frames : List Decoded)
  | malformed

/-- What a read of the handshake gives: the `Sec-WebSocket-Protocol` headers, each with what is
    between its commas. -/
inductive Headers where
  | again
  | lost
  | data (protocols : List (List WsProtocol)) (ending : HeadersEnd)

structure WsHost (μ ω : Type) extends Host μ ω where
  headers : Program Fault ω Headers
  newMechanism : MechanismKind → μ

/-- What `_next_msg` can point to in a WebSocket engine only. -/
inductive WsNextMsg where
  | produceCloseMessage
  | produceNoMsgAfterClose
  | closeConnectionAfterClose
  deriving Repr, DecidableEq

/-- The fields `ws_engine_t` adds. -/
structure WsFields where
  client : Bool
  /-- `_websocket_protocol` is set. -/
  protocol : Bool
  closeMsg : Msg

abbrev WsEngine (μ : Type) := StreamEngine μ WsNextMsg WsFields

abbrev WsPlugged (μ ω : Type) := PluggedIn (WsEngine μ) ω

abbrev WsM (μ ω : Type) := Program Fault (WsPlugged μ ω)

namespace WsEngine

open StreamEngine

variable {μ ω : Type}

/-- The constructor, and the request that a client begins with; how long it is does not matter. -/
def new (options : EngineOptions) (client : Bool) : WsEngine μ where
  options := options
  hasHandshakeStage := true
  input := []
  decoder := none
  encoder := none
  outsize := if client then 1 else 0
  mechanism := none
  nextMsg := .nextHandshakeCommand
  processMsg := .processHandshakeCommand
  inputStopped := false
  outputStopped := false
  timer _ := false
  polled := true
  handshaking := true
  ioError := false
  own := { client := client, protocol := false, closeMsg := .init }

section Messages

variable (host : Host μ ω) (mech : Mechanism μ)

/-! ## Messages for the peer -/

def producePingMessage : WsM μ ω (Rc × Msg) := do
  update fun e => { e with nextMsg := .pullAndEncode }
  update fun e =>
    if 0 < e.options.timeout then e.setTimer .heartbeatTimeout true else e
  pure (.ok, { flags := MsgFlag.command ||| MsgFlag.ping })

def producePongMessage : WsM μ ω (Rc × Msg) := do
  update fun e => { e with nextMsg := .pullAndEncode }
  pure (.ok, { flags := MsgFlag.command ||| MsgFlag.pong })

def produceCloseMessage : WsM μ ω (Rc × Msg) := do
  let e ← engine
  update fun e => { e with own.closeMsg := .init, nextMsg := .own .produceNoMsgAfterClose }
  pure (.ok, e.own.closeMsg)

def produceNoMsgAfterClose : WsM μ ω (Rc × Msg) := do
  update fun e => { e with nextMsg := .own .closeConnectionAfterClose }
  pure (.again, .init)

def closeConnectionAfterClose : WsM μ ω (Rc × Msg) := do
  error host mech .connectionError
  pure (.failed, .init)

def nextMsgCall : WsM μ ω (Rc × Msg) := do
  let e ← engine
  match e.nextMsg with
  | .routingIdMsg => routingIdMsg
  | .nextHandshakeCommand => nextHandshakeCommand host mech
  | .pullMsgFromSession => pullMsgFromSession host
  | .pullAndEncode => pullAndEncode host mech
  | .producePingMessage => producePingMessage
  | .producePongMessage => producePongMessage
  | .own .produceCloseMessage => produceCloseMessage
  | .own .produceNoMsgAfterClose => produceNoMsgAfterClose
  | .own .closeConnectionAfterClose => closeConnectionAfterClose host mech

/-! ## Messages from the peer -/

def processRoutingIdMsg (m : Msg) : WsM μ ω (Rc × Msg) := do
  let e ← engine
  let known ← pushIf host e.options.recvRoutingId { m with flags := m.flags ||| MsgFlag.routingId }
  assert known .processRoutingIdMsg
  update fun e => { e with processMsg := .pushMsgToSession }
  pure (.ok, .init)

def processCommandMessage (m : Msg) : WsM μ ω Unit :=
  if m.isPing then do
    update fun e => { e with nextMsg := .producePongMessage }
    outEvent host (nextMsgCall host mech)
  else if m.isCloseCmd then do
    update fun e => { e with own.closeMsg := m, nextMsg := .own .produceCloseMessage }
    outEvent host (nextMsgCall host mech)
  else pure ()

/-- A control frame, which no mechanism sees. -/
def isControl (m : Msg) : Bool := m.isPing || m.isPong || m.isCloseCmd

/-- The message as the mechanism decodes it. -/
def decodeMsg (m : Msg) : WsM μ ω (Rc × Msg) := do
  let e ← engine
  assert e.mechanism.isSome .decodeAndPush
  if isControl m then do
    processCommandMessage host mech m
    pure (.ok, m)
  else ask .decodeAndPush (mech.decode · m)

def decodeAndPush (m : Msg) : WsM μ ω (Rc × Msg) := do
  let (rc, m) ← decodeMsg host mech m
  if rc = .ok then do
    update (setTimer .heartbeatTimeout false)
    onlyIf (m.command && !isControl m) (processCommandMessage host mech m)
    let (rc, m) ← call (host.pushMsg m)
    onlyIf (rc == .again) (update fun e => { e with processMsg := .pushOneThenDecodeAndPush })
    pure (rc, m)
  else pure (rc, m)

def processMsgCall (m : Msg) : WsM μ ω (Rc × Msg) := do
  let e ← engine
  match e.processMsg with
  | .processRoutingIdMsg => processRoutingIdMsg host m
  | .processHandshakeCommand => processHandshakeCommand host mech (nextMsgCall host mech) m
  | .writeCredential => writeCredential host mech (decodeAndPush host mech) m
  | .decodeAndPush => decodeAndPush host mech m
  | .pushOneThenDecodeAndPush => pushOneThenDecodeAndPush host m
  | .pushMsgToSession => call (host.pushMsg m)

end Messages

/-! ## Handshake -/

/-- The mechanism that a protocol asks for, if it is the configured one. -/
def WsProtocol.mechanism : WsProtocol → Option MechanismKind
  | .zws2Null => some .null
  | .zws2Plain => some .plain
  | .zws2Curve => some .curve
  | .zws2 | .other => none

variable (host : WsHost μ ω) (mech : Mechanism μ)

def selectProtocol (p : WsProtocol) : WsM μ ω Bool := do
  let e ← engine
  if p = .zws2 ∧ e.options.mechanism = .null then do
    update fun e =>
      let e := { e with nextMsg := .routingIdMsg, processMsg := .processRoutingIdMsg }
      if 0 < e.options.heartbeatInterval then e.setTimer .heartbeatIvl true else e
    pure true
  else if WsProtocol.mechanism p = some e.options.mechanism then do
    update fun e => { e with mechanism := some (host.newMechanism e.options.mechanism) }
    pure true
  else pure false

/-- The protocols of one header, for a server, which takes the first it can. -/
def serverHeader : List WsProtocol → WsM μ ω Unit
  | [] => pure ()
  | p :: rest => do
      let selected ← selectProtocol host p
      if selected then update fun e => { e with own.protocol := true } else serverHeader rest

/-- The protocol headers in order; false is an error in the handshake. -/
def readHeaders : List (List WsProtocol) → WsM μ ω Bool
  | [] => pure true
  | header :: rest => do
      let e ← engine
      if e.own.client then
        if e.mechanism.isSome then pure false
        else do
          -- A client takes what is between the commas for one protocol.
          let selected ← selectProtocol host (match header with | [p] => p | _ => .other)
          onlyIf selected (update fun e => { e with own.protocol := true })
          readHeaders rest
      else do
        onlyIf (!e.own.protocol) (serverHeader host header)
        readHeaders rest

/-- The end of a handshake whose headers are complete. -/
def completeHandshake (frames : List Decoded) : WsM μ ω Bool := do
  let e ← engine
  if e.own.protocol then do
    update fun e => { e with
      encoder := some (.ws e.own.client)
      decoder := some .init
      input := frames
      outsize := if e.own.client then e.outsize else 1 }
    pure true
  else do
    error host.toHost mech .protocolError
    pure false

/-- `ws_engine_t::handshake` with `client_handshake` or `server_handshake`. -/
def handshake : WsM μ ω Bool := do
  let headers ← call host.headers
  match headers with
  | .again => pure false
  | .lost => do
      error host.toHost mech .connectionError
      pure false
  | .data protocols ending => do
      let fine ← readHeaders host protocols
      if fine then
        match ending with
        | .waiting => pure false
        | .complete frames => completeHandshake host mech frames
        | .malformed => do
            error host.toHost mech .protocolError
            pure false
      else do
        error host.toHost mech .protocolError
        pure false

/-- `ws_engine_t`, as the base class sees it. -/
abbrev derived : Derived μ WsNextMsg WsFields ω where
  nextMsg := nextMsgCall host.toHost mech
  processMsg := processMsgCall host.toHost mech
  handshake := handshake host mech

abbrev handle : EngineEvent → WsM μ ω Unit :=
  StreamEngine.handle host.toHost mech (derived host mech)

end WsEngine

/-- What happens to an engine, or to what it is plugged into. -/
inductive WsAction (ω : Type) where
  | event (e : EngineEvent)
  | elsewhere (world : ω)
  deriving DecidableEq

namespace WsEngine

variable {μ ω : Type} (host : WsHost μ ω) (mech : Mechanism μ)

def start (options : EngineOptions) (client : Bool) (world : ω) : WsPlugged μ ω where
  engine := new options client
  world := world

def step (s : WsPlugged μ ω) : WsAction ω → Except Fault (WsPlugged μ ω)
  | .event e => (handle host mech e s).map Prod.snd
  | .elsewhere world => .ok { s with world := world }

/-- The poller calls an engine while it has its descriptor, the session calls it for input that is
    stopped, and timers that run expire. -/
def Allowed (s : WsPlugged μ ω) : WsAction ω → Prop
  | .event .inEvent | .event .outEvent => s.gone = false ∧ s.engine.ioError = false
  | .event .restartInput => s.gone = false ∧ s.engine.inputStopped = true
  | .event .restartOutput => s.gone = false
  | .event .zapMsgAvailable => s.gone = false ∧ s.engine.mechanism.isSome = true
  | .event (.timerEvent id) => s.gone = false ∧ s.engine.timer id = true
  | .elsewhere _ => True

instance (s : WsPlugged μ ω) (a : WsAction ω) : Decidable (Allowed s a) := by
  cases a with
  | event e => cases e <;> dsimp only [Allowed] <;> infer_instance
  | _ => dsimp only [Allowed]; infer_instance

end WsEngine

end Zmq
