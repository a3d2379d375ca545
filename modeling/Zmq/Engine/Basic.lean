import Zmq.Lib.Program
import Zmq.Pipe.Basic

/-! # Stream engines

`stream_engine_base_t`, and over it `zmtp_engine_t` and `raw_engine_t`. What the base class calls
in a derived one is a parameter of its functions. An engine runs against a `Host`, which is its
session and its descriptor, and a `Mechanism`; both are given by what they answer, so that an
engine can be looked at alone or together with a session.

Input is a sequence of decoded frames. A message is encoded as a whole: what does not fit
into one batch stays in the write buffer here and in the encoder in the source. Metadata,
monitor events and the byte layout of a greeting are left out.
-/

namespace Zmq

open Lib

inductive Status where
  | handshaking
  | ready
  | error
  deriving Repr, DecidableEq

/-- What a call returns: 0, -1 with EAGAIN, or -1 with another `errno`. -/
inductive Rc where
  | ok
  | again
  | failed
  deriving Repr, DecidableEq

inductive ErrorReason where
  | protocolError
  | connectionError
  | timeoutError
  deriving Repr, DecidableEq

/-- The calls of an engine on its mechanism. A message that is passed by pointer is
    returned as the call leaves it. -/
structure Mechanism (μ : Type) where
  status : μ → Status
  nextHandshakeCommand : μ → (Rc × Msg) × μ
  processHandshakeCommand : μ → Msg → (Rc × Msg) × μ
  encode : μ → Msg → (Rc × Msg) × μ
  decode : μ → Msg → (Rc × Msg) × μ
  zapMsgAvailable : μ → Rc × μ
  peerRoutingId : μ → List UInt8
  getUserId : μ → List UInt8

/-- One result of `i_decoder::decode` that is not "more data needed". -/
inductive Decoded where
  | frame (m : Msg)
  | malformed
  deriving Repr, DecidableEq

inductive Received where
  | again
  | lost
  | data (frames : List Decoded)
  deriving Repr, DecidableEq

/-- What the greeting of the peer amounts to. `mismatch` is a mechanism that is not the
    configured one. -/
inductive Greeting (μ : Type) where
  | waiting
  | lost
  | unversioned (frames : List Decoded)
  | v1_0
  | v2_0
  | v3_0 (mechanism : μ)
  | v3_1 (mechanism : μ)
  | mismatch

/-- What an engine asks of its session and of its descriptor. -/
structure Host (μ ω : Type) where
  pushMsg : Msg → Program Fault ω (Rc × Msg)
  pullMsg : Program Fault ω (Option Msg)
  flush : Program Fault ω Unit
  rollback : Program Fault ω Unit
  engineReady : Program Fault ω Unit
  engineError : Bool → ErrorReason → Program Fault ω Unit
  greeting : Program Fault ω (Greeting μ)
  read : Program Fault ω Received
  /-- How much of that many bytes was written, or -1. -/
  write : Nat → Program Fault ω (Option Nat)

inductive MechanismKind where
  | null
  | plain
  | curve
  deriving Repr, DecidableEq

structure EngineOptions where
  mechanism : MechanismKind := .null
  recvRoutingId : Bool := false
  /-- ZMQ_NOTIFY_CONNECT and ZMQ_NOTIFY_DISCONNECT in `router_notify`. -/
  notifyConnect : Bool := false
  notifyDisconnect : Bool := false
  /-- ZMQ_RECONNECT_STOP_HANDSHAKE_FAILED in `reconnect_stop`. -/
  stopHandshakeFailed : Bool := false
  zapEnabled : Bool := false
  /-- The type is ZMQ_PUB or ZMQ_XPUB. -/
  publisher : Bool := false
  rawSocket : Bool := false
  rawNotify : Bool := true
  routingId : List UInt8 := []
  heartbeatTtl : UInt16 := 0
  heartbeatInterval : Nat := 0
  /-- -1 is "as long as the interval". -/
  heartbeatTimeout : Option Nat := none
  handshakeIvl : Nat := 30000
  outBatchSize : Nat := 8192

/-- The name of a command: its length and the bytes. -/
def Msg.isNamed (m : Msg) (name : List UInt8) : Bool :=
  m.data.head? == some (UInt8.ofNat name.length) && (m.data.drop 1).take name.length == name

def Msg.isPing (m : Msg) : Bool := m.flags &&& MsgFlag.cmdTypeMask == MsgFlag.ping

def Msg.isPong (m : Msg) : Bool := m.flags &&& MsgFlag.cmdTypeMask == MsgFlag.pong

def Msg.isCloseCmd (m : Msg) : Bool := m.flags &&& MsgFlag.cmdTypeMask == MsgFlag.closeCmd

/-- The first half of `zmtp_engine_t::process_command_message`: recognise the command. -/
def Msg.named (m : Msg) : Msg :=
  if m.isNamed [80, 73, 78, 71] then { m with flags := m.flags ||| MsgFlag.ping }
  else if m.isNamed [80, 79, 78, 71] then { m with flags := m.flags ||| MsgFlag.pong }
  else if m.isNamed [83, 85, 66, 83, 67, 82, 73, 66, 69] then
    { m with flags := m.flags ||| MsgFlag.subscribe }
  else if m.isNamed [67, 65, 78, 67, 69, 76] then { m with flags := m.flags ||| MsgFlag.cancel }
  else m

def EngineOptions.timeout (options : EngineOptions) : Nat :=
  if 0 < options.heartbeatInterval then options.heartbeatTimeout.getD options.heartbeatInterval
  else 0

/-- The encoders, by what they put in front of a message. -/
inductive Encoder where
  | v1
  | v2
  | v3_1
  | raw
  | ws (client : Bool)
  deriving Repr, DecidableEq

/-- What `_next_msg` can point to; `own` are the functions that only one derived class has. -/
inductive NextMsg (ν : Type) where
  | routingIdMsg
  | nextHandshakeCommand
  | pullMsgFromSession
  | pullAndEncode
  | producePingMessage
  | producePongMessage
  | own (f : ν)
  deriving Repr, DecidableEq

inductive ProcessMsg where
  | processRoutingIdMsg
  | processHandshakeCommand
  | writeCredential
  | decodeAndPush
  | pushOneThenDecodeAndPush
  | pushMsgToSession
  deriving Repr, DecidableEq

inductive TimerId where
  | handshake
  | heartbeatIvl
  | heartbeatTimeout
  | heartbeatTtl
  deriving Repr, DecidableEq

/-- `stream_engine_base_t`, with the fields `own` of a derived class. -/
structure StreamEngine (μ ν ξ : Type) where
  options : EngineOptions
  /-- False for `raw_engine_t`. -/
  hasHandshakeStage : Bool
  input : List Decoded
  /-- `_decoder`, and the message in it. -/
  decoder : Option Msg
  encoder : Option Encoder
  outsize : Nat
  mechanism : Option μ
  nextMsg : NextMsg ν
  processMsg : ProcessMsg
  inputStopped : Bool
  outputStopped : Bool
  timer : TimerId → Bool
  /-- Whether the poller has the descriptor. -/
  polled : Bool
  handshaking : Bool
  ioError : Bool
  own : ξ

/-- An engine that is plugged in, until it deletes itself. -/
structure PluggedIn (ε ω : Type) where
  engine : ε
  world : ω
  gone : Bool := false

abbrev StreamM (μ ν ξ ω : Type) := Program Fault (PluggedIn (StreamEngine μ ν ξ) ω)

def Encoder.headerSize (size : Nat) (m : Msg) : Encoder → Nat
  | .v1 =>
    let marked := if m.isSubscribe || m.isCancel then 1 else 0
    if size + 1 + marked < 255 then 2 + marked else 10 + marked
  | .v2 =>
    let marked := if m.isSubscribe || m.isCancel then 1 else 0
    if 255 < size + marked then 9 + marked else 2 + marked
  | .v3_1 =>
    let name := if m.isSubscribe then 10 else if m.isCancel then 7 else 0
    if 255 < size + name then 9 + name else 2 + name
  | .raw => 0
  | .ws client =>
    let marked := (if m.isPing || m.isPong || m.isCloseCmd then 0 else 1) +
      (if m.isSubscribe || m.isCancel then 1 else 0)
    let length := if size + marked ≤ 125 then 0 else if size + marked ≤ 0xffff then 2 else 8
    2 + length + (if client then 4 else 0) + marked

def Encoder.encodedSize (encoder : Encoder) (m : Msg) : Nat := encoder.headerSize m.size m + m.size

def assert {σ : Type} (holds : Bool) (site : AssertSite) : Program Fault σ Unit :=
  if holds then pure () else throw (.assertion site)

theorem wp_assert {σ : Type} {permitted : Fault → Prop} {post : Unit → σ → Prop} {s : σ}
    {holds : Bool} {site : AssertSite} (fails : ¬ holds = true → permitted (.assertion site))
    (next : holds = true → post () s) : wp permitted (assert holds site) post s :=
  wp_ite next fails

def onlyIf {ε σ : Type} (wanted : Bool) (x : Program ε σ Unit) : Program ε σ Unit :=
  if wanted then x else pure ()

namespace StreamEngine

variable {μ ν ξ ω : Type}

def engine : StreamM μ ν ξ ω (StreamEngine μ ν ξ) := do
  let s ← get
  pure s.engine

def update (f : StreamEngine μ ν ξ → StreamEngine μ ν ξ) : StreamM μ ν ξ ω Unit :=
  modify fun s => { s with engine := f s.engine }

def call {α : Type} (x : Program Fault ω α) : StreamM μ ν ξ ω α :=
  zoom PluggedIn.world (fun s w => { s with world := w }) x

section Rules

variable {permitted : Fault → Prop} {s : PluggedIn (StreamEngine μ ν ξ) ω}

@[simp] theorem wp_engine {post : StreamEngine μ ν ξ → PluggedIn (StreamEngine μ ν ξ) ω → Prop} :
    wp permitted engine post s ↔ post s.engine s := Iff.rfl

@[simp] theorem wp_update {f : StreamEngine μ ν ξ → StreamEngine μ ν ξ}
    {post : Unit → PluggedIn (StreamEngine μ ν ξ) ω → Prop} :
    wp permitted (update f) post s ↔ post () { s with engine := f s.engine } := Iff.rfl

end Rules

def setTimer (id : TimerId) (runs : Bool) (e : StreamEngine μ ν ξ) : StreamEngine μ ν ξ :=
  { e with timer := Function.update e.timer id runs }

/-- A call on the mechanism, which the caller asserts to be there. -/
def ask {α : Type} (site : AssertSite) (f : μ → α × μ) : StreamM μ ν ξ ω α := do
  let e ← engine
  match e.mechanism with
  | none => throw (.assertion site)
  | some m => do
      update fun e => { e with mechanism := some (f m).2 }
      pure (f m).1

/-! ## Messages for the peer -/

variable (host : Host μ ω) (mech : Mechanism μ)

def pushIf (wanted : Bool) (m : Msg) : StreamM μ ν ξ ω Bool :=
  if wanted then do
    let (rc, _) ← call (host.pushMsg m)
    pure (rc == .ok)
  else pure true

/-- `stream_engine_base_t::mechanism_ready`. A message that the session does not take ends
    it early. -/
def mechanismReady : StreamM μ ν ξ ω Unit := do
  update fun e =>
    if 0 < e.options.heartbeatInterval then e.setTimer .heartbeatIvl true else e
  let e ← engine
  onlyIf e.hasHandshakeStage (call host.engineReady)
  let id := (e.mechanism.map mech.peerRoutingId).getD []
  let known ← pushIf host e.options.recvRoutingId
    { Msg.initSize id with flags := MsgFlag.routingId }
  if known then do
    let notified ← pushIf host e.options.notifyConnect .init
    if notified then do
      onlyIf (e.options.recvRoutingId || e.options.notifyConnect) (call host.flush)
      update fun e => { e.setTimer .handshake false with
        nextMsg := .pullAndEncode
        processMsg := .writeCredential }
    else pure ()
  else pure ()

/-- `routing_id_msg` of `zmtp_engine_t` and `ws_engine_t`. -/
def routingIdMsg : StreamM μ ν ξ ω (Rc × Msg) := do
  let e ← engine
  update fun e => { e with nextMsg := .pullMsgFromSession }
  pure (.ok, .initSize e.options.routingId)

def pullMsgFromSession : StreamM μ ν ξ ω (Rc × Msg) := do
  let pulled ← call host.pullMsg
  match pulled with
  | some m => pure (.ok, m)
  | none => pure (.again, .init)

def pullAndEncode : StreamM μ ν ξ ω (Rc × Msg) := do
  let e ← engine
  assert e.mechanism.isSome .pullAndEncode
  let (rc, m) ← pullMsgFromSession host
  if rc = .ok then ask .pullAndEncode (mech.encode · m) else pure (rc, m)

def nextHandshakeCommand : StreamM μ ν ξ ω (Rc × Msg) := do
  let status ← ask .nextHandshakeCommand fun m => (mech.status m, m)
  match status with
  | .ready => do
      mechanismReady host mech
      pullAndEncode host mech
  | .error => pure (.failed, .init)
  | .handshaking => do
      let (rc, m) ← ask .nextHandshakeCommand mech.nextHandshakeCommand
      if rc = .ok then pure (rc, { m with flags := m.flags ||| MsgFlag.command })
      else pure (rc, m)

section Output

variable (next : StreamM μ ν ξ ω (Rc × Msg))

/-- The loop of `out_event`. Every message takes at least a byte, so the size of a batch
    bounds it. -/
def loadBatch (encoder : Encoder) : Nat → StreamM μ ν ξ ω Unit
  | 0 => pure ()
  | n + 1 => do
      let (rc, m) ← next
      if rc = .ok then do
        assert (decide (0 < encoder.encodedSize m)) .encode
        update fun e => { e with outsize := e.outsize + encoder.encodedSize m }
        let e ← engine
        if e.outsize < e.options.outBatchSize then loadBatch encoder n else pure ()
      else pure ()

/-- Whether there is something to write, after an attempt to get it. -/
def fillOutput : StreamM μ ν ξ ω Bool := do
  let e ← engine
  if e.outsize = 0 then
    match e.encoder with
    | none => do
        assert e.handshaking .encoder
        pure false
    | some encoder => do
        loadBatch next encoder e.options.outBatchSize
        let s ← get
        -- A WebSocket engine can delete itself in `_next_msg`.
        if s.gone then pure false
        else if s.engine.outsize = 0 then do
          update fun e => { e with outputStopped := true }
          pure false
        else pure true
  else pure true

def writeOutput : StreamM μ ν ξ ω Unit := do
  let e ← engine
  let written ← call (host.write e.outsize)
  match written with
  | none => pure ()
  | some n => update fun e => { e with outsize := e.outsize - n }

def outEvent : StreamM μ ν ξ ω Unit := do
  let e ← engine
  assert (!e.ioError) .outEvent
  let some_left ← fillOutput next
  if some_left then writeOutput host else pure ()

def restartOutput : StreamM μ ν ξ ω Unit := do
  let e ← engine
  if e.ioError then pure ()
  else do
    update fun e => { e with outputStopped := false }
    outEvent host next

/-! ## Messages from the peer -/

def processHandshakeCommand (m : Msg) : StreamM μ ν ξ ω (Rc × Msg) := do
  let (rc, m) ← ask .processHandshakeCommand (mech.processHandshakeCommand · m)
  if rc = .ok then do
    let status ← ask .processHandshakeCommand fun m => (mech.status m, m)
    if status = .error then pure (.failed, m)
    else do
      onlyIf (status == .ready) (mechanismReady host mech)
      let e ← engine
      onlyIf e.outputStopped (restartOutput host next)
      pure (rc, m)
  else pure (rc, m)

end Output

def pushOneThenDecodeAndPush (m : Msg) : StreamM μ ν ξ ω (Rc × Msg) := do
  let (rc, m) ← call (host.pushMsg m)
  onlyIf (rc == .ok) (update fun e => { e with processMsg := .decodeAndPush })
  pure (rc, m)

def writeCredential (decodeAndPush : Msg → StreamM μ ν ξ ω (Rc × Msg)) (m : Msg) :
    StreamM μ ν ξ ω (Rc × Msg) := do
  let credential ← ask .writeCredential fun k => (mech.getUserId k, k)
  let known ← pushIf host (decide (credential ≠ []))
    { Msg.initSize credential with flags := MsgFlag.credential }
  if known then do
    update fun e => { e with processMsg := .decodeAndPush }
    decodeAndPush m
  else pure (.again, m)

section Input

variable (process : Msg → StreamM μ ν ξ ω (Rc × Msg))

def processDecoded : StreamM μ ν ξ ω Rc := do
  let e ← engine
  let (rc, m) ← process (e.decoder.getD .init)
  update fun e => { e with decoder := some m }
  pure rc

/-- The loop of `in_event_internal` and `restart_input`, over at most `n` frames. -/
def decodeFrames : Nat → StreamM μ ν ξ ω Rc
  | 0 => pure .ok
  | n + 1 => do
      let e ← engine
      match e.input with
      | [] => pure .ok
      | .malformed :: rest => do
          update fun e => { e with input := rest }
          pure .failed
      | .frame m :: rest => do
          update fun e => { e with input := rest, decoder := some m }
          let rc ← processDecoded process
          if rc = .ok then decodeFrames n else pure rc

end Input

/-! ## The end of an engine -/

/-- The last message of a raw engine, whose `_process_msg` pushes to the session. -/
def terminator : StreamM μ ν ξ ω Unit := do
  let e ← engine
  if !e.hasHandshakeStage && e.options.rawSocket && e.options.rawNotify then do
    let _ ← call (host.pushMsg .init)
    pure ()
  else pure ()

/-- The disconnect notification takes the place of an incomplete message. -/
def notifyDisconnect : StreamM μ ν ξ ω Unit := do
  let e ← engine
  if e.options.notifyDisconnect && !e.handshaking then do
    call host.rollback
    let _ ← call (host.pushMsg .init)
    pure ()
  else pure ()

/-- A mechanism that is missing or not done. -/
def unauthenticated (e : StreamEngine μ ν ξ) : Bool :=
  match e.mechanism with
  | none => true
  | some m => mech.status m == .handshaking

/-- A peer that drops the connection in the handshake can be treated as a protocol error. -/
def errorReason (e : StreamEngine μ ν ξ) (reason : ErrorReason) : ErrorReason :=
  if e.unauthenticated mech && e.options.stopHandshakeFailed then .protocolError else reason

/-- `stream_engine_base_t::error`, and `raw_engine_t::error` before it. -/
def error (reason : ErrorReason) : StreamM μ ν ξ ω Unit := do
  terminator host
  notifyDisconnect host
  call host.flush
  let e ← engine
  let handshaked := !e.handshaking &&
    (e.mechanism.isNone || e.mechanism.any (mech.status · != .handshaking))
  call (host.engineError handshaked (e.errorReason mech reason))
  modify fun s => { s with gone := true }

end StreamEngine

/-! ## Events -/

/-- What the base class calls in a derived one: the functions that `_next_msg` and `_process_msg`
    point to, and the handshake. -/
structure Derived (μ ν ξ ω : Type) where
  nextMsg : StreamM μ ν ξ ω (Rc × Msg)
  processMsg : Msg → StreamM μ ν ξ ω (Rc × Msg)
  handshake : StreamM μ ν ξ ω Bool

inductive EngineEvent where
  | inEvent
  | outEvent
  | restartInput
  | restartOutput
  | zapMsgAvailable
  | timerEvent (id : TimerId)
  deriving Repr, DecidableEq

namespace StreamEngine

variable {μ ν ξ ω : Type} (host : Host μ ω) (mech : Mechanism μ) (d : Derived μ ν ξ ω)

def greeted : StreamM μ ν ξ ω Bool := do
  let e ← engine
  if e.handshaking then do
    let done ← d.handshake
    if done then do
      update fun e => { e with handshaking := false }
      let e ← engine
      onlyIf (e.mechanism.isNone && e.hasHandshakeStage) (call host.engineReady)
      pure true
    else pure false
  else pure true

/-- What is left of `in_event_internal` once there is input. -/
def decodeInput : StreamM μ ν ξ ω Bool := do
  let e ← engine
  let rc ← decodeFrames d.processMsg e.input.length
  match rc with
  | .ok => do
      call host.flush
      pure true
  | .again => do
      update fun e => { e with inputStopped := true }
      call host.flush
      pure true
  | .failed => do
      error host mech .protocolError
      pure false

def receive : StreamM μ ν ξ ω Bool := do
  let e ← engine
  match e.input with
  | _ :: _ => decodeInput host mech d
  | [] => do
      let received ← call host.read
      match received with
      | .again => pure true
      | .lost => do
          error host mech .connectionError
          pure false
      | .data frames => do
          update fun e => { e with input := frames }
          decodeInput host mech d

def inEventInternal : StreamM μ ν ξ ω Bool := do
  let e ← engine
  assert (!e.ioError) .inEventInternal
  let done ← greeted host d
  if done then do
    let e ← engine
    assert e.decoder.isSome .decoder
    if e.inputStopped then do
      update fun e => { e with polled := false, ioError := true }
      pure true
    else receive host mech d
  else pure false

def inEvent : StreamM μ ν ξ ω Unit := do
  let _ ← inEventInternal host mech d
  pure ()

/-- The end of `restart_input`, once the loop has stopped with `rc`. -/
def resumeInput (rc : Rc) : StreamM μ ν ξ ω Bool := do
  let e ← engine
  if rc = .again then do
    call host.flush
    pure true
  else if e.ioError then do
    error host mech .connectionError
    pure false
  else if rc = .failed then do
    error host mech .protocolError
    pure false
  else do
    update fun e => { e with inputStopped := false }
    call host.flush
    inEventInternal host mech d

def restartInput : StreamM μ ν ξ ω Bool := do
  let e ← engine
  assert (e.inputStopped && e.decoder.isSome) .restartInput
  let rc ← processDecoded d.processMsg
  match rc with
  | .again => do
      call host.flush
      pure true
  | .failed => do
      error host mech .protocolError
      pure false
  | .ok => do
      let e ← engine
      let rc ← decodeFrames d.processMsg e.input.length
      resumeInput host mech d rc

def restartStopped : StreamM μ ν ξ ω Bool := do
  let e ← engine
  if e.inputStopped then restartInput host mech d else pure true

def zapMsgAvailable : StreamM μ ν ξ ω Unit := do
  let rc ← ask .zapMsgAvailable mech.zapMsgAvailable
  if rc = .ok then do
    let goes_on ← restartStopped host mech d
    if goes_on then do
      let e ← engine
      if e.outputStopped then restartOutput host d.nextMsg else pure ()
    else pure ()
  else error host mech .protocolError

def timerEvent (id : TimerId) : StreamM μ ν ξ ω Unit :=
  match id with
  | .heartbeatIvl => do
      update fun e => { e with nextMsg := .producePingMessage }
      outEvent host d.nextMsg
      update (setTimer .heartbeatIvl true)
  | .handshake | .heartbeatTimeout | .heartbeatTtl => do
      update (setTimer id false)
      error host mech .timeoutError

def handle : EngineEvent → StreamM μ ν ξ ω Unit
  | .inEvent => inEvent host mech d
  | .outEvent => outEvent host d.nextMsg
  | .restartInput => do
      let _ ← restartInput host mech d
      pure ()
  | .restartOutput => restartOutput host d.nextMsg
  | .zapMsgAvailable => zapMsgAvailable host mech d
  | .timerEvent id => timerEvent host mech d id

end StreamEngine

/-! ## ZMTP and raw engines -/

/-- The fields `zmtp_engine_t` adds. -/
structure ZmtpFields where
  subscriptionRequired : Bool
  pongMsg : Msg

abbrev Engine (μ : Type) := StreamEngine μ Empty ZmtpFields

abbrev Plugged (μ ω : Type) := PluggedIn (Engine μ) ω

abbrev EngineM (μ ω : Type) := Program Fault (Plugged μ ω)

namespace Engine

export StreamEngine (engine update call wp_engine wp_update setTimer ask pushIf mechanismReady
  routingIdMsg pullMsgFromSession pullAndEncode nextHandshakeCommand writeOutput
  pushOneThenDecodeAndPush terminator notifyDisconnect error)

variable {μ ω : Type}

def new (options : EngineOptions) (hasHandshakeStage : Bool) : Engine μ where
  options := options
  hasHandshakeStage := hasHandshakeStage
  input := []
  decoder := none
  encoder := none
  outsize := 0
  mechanism := none
  nextMsg := .routingIdMsg
  processMsg := .processRoutingIdMsg
  inputStopped := false
  outputStopped := false
  timer _ := false
  polled := false
  handshaking := true
  ioError := false
  own := { subscriptionRequired := false, pongMsg := .init }

variable (host : Host μ ω) (mech : Mechanism μ)

/-- `"\4PING"` and `"\4PONG"`. -/
def pingCmd : List UInt8 := [4, 80, 73, 78, 71]
def pongCmd : List UInt8 := [4, 80, 79, 78, 71]

def producePingMessage : EngineM μ ω (Rc × Msg) := do
  let e ← engine
  let ttl : List UInt8 :=
    [(e.options.heartbeatTtl >>> 8).toUInt8, e.options.heartbeatTtl.toUInt8]
  let ping : Msg := { flags := MsgFlag.command, data := pingCmd ++ ttl }
  let result ← ask .producePingMessage (mech.encode · ping)
  update fun e => { e with nextMsg := .pullAndEncode }
  update fun e =>
    if 0 < e.options.timeout then e.setTimer .heartbeatTimeout true else e
  pure result

def producePongMessage : EngineM μ ω (Rc × Msg) := do
  let e ← engine
  let result ← ask .producePongMessage (mech.encode · e.own.pongMsg)
  update fun e => { e with nextMsg := .pullAndEncode, own.pongMsg := .init }
  pure result

def nextMsgCall : EngineM μ ω (Rc × Msg) := do
  let e ← engine
  match e.nextMsg with
  | .routingIdMsg => routingIdMsg
  | .nextHandshakeCommand => nextHandshakeCommand host mech
  | .pullMsgFromSession => pullMsgFromSession host
  | .pullAndEncode => pullAndEncode host mech
  | .producePingMessage => producePingMessage mech
  | .producePongMessage => producePongMessage mech

abbrev loadBatch : Encoder → Nat → EngineM μ ω Unit :=
  StreamEngine.loadBatch (nextMsgCall host mech)

abbrev fillOutput : EngineM μ ω Bool := StreamEngine.fillOutput (nextMsgCall host mech)

abbrev outEvent : EngineM μ ω Unit := StreamEngine.outEvent host (nextMsgCall host mech)

abbrev restartOutput : EngineM μ ω Unit := StreamEngine.restartOutput host (nextMsgCall host mech)

abbrev processHandshakeCommand : Msg → EngineM μ ω (Rc × Msg) :=
  StreamEngine.processHandshakeCommand host mech (nextMsgCall host mech)

/-- `zmtp_engine_t::process_routing_id_msg`, with its two failing `errno_assert`s. -/
def processRoutingIdMsg (m : Msg) : EngineM μ ω (Rc × Msg) := do
  let e ← engine
  let known ← pushIf host e.options.recvRoutingId
    { m with flags := m.flags ||| MsgFlag.routingId }
  assert known .processRoutingIdMsg
  let subscribed ← pushIf host e.own.subscriptionRequired { data := [1] }
  assert subscribed .processRoutingIdMsg
  update fun e => { e with processMsg := .pushMsgToSession }
  pure (.ok, .init)

/-- `zmtp_engine_t::process_heartbeat_message`. A PING shorter than its time to live is
    read past its end. -/
def processHeartbeatMessage (m : Msg) : EngineM μ ω Unit :=
  if m.isPing then
    if m.size < 7 then throw .outOfBounds
    else do
      let ttl : UInt16 := (m.data.getD 5 0).toUInt16 * 256 + (m.data.getD 6 0).toUInt16
      update fun e => if 0 < (ttl * 100).toNat then e.setTimer .heartbeatTtl true else e
      update fun e => { e with
        own.pongMsg := { flags := MsgFlag.command, data := pongCmd ++ (m.data.drop 7).take 16 }
        nextMsg := .producePongMessage }
      outEvent host mech
  else pure ()

/-- `zmtp_engine_t::process_command_message`, for the messages it is called for. -/
def processCommandMessage (m : Msg) : EngineM μ ω Msg :=
  if m.command then do
    processHeartbeatMessage host mech m.named
    pure m.named
  else pure m

def decodeAndPush (m : Msg) : EngineM μ ω (Rc × Msg) := do
  let (rc, m) ← ask .decodeAndPush (mech.decode · m)
  if rc = .ok then do
    update fun e => (e.setTimer .heartbeatTimeout false).setTimer .heartbeatTtl false
    let m ← processCommandMessage host mech m
    let (rc, m) ← call (host.pushMsg m)
    onlyIf (rc == .again) (update fun e => { e with processMsg := .pushOneThenDecodeAndPush })
    pure (rc, m)
  else pure (rc, m)

abbrev writeCredential : Msg → EngineM μ ω (Rc × Msg) :=
  StreamEngine.writeCredential host mech (decodeAndPush host mech)

def processMsgCall (m : Msg) : EngineM μ ω (Rc × Msg) := do
  let e ← engine
  match e.processMsg with
  | .processRoutingIdMsg => processRoutingIdMsg host m
  | .processHandshakeCommand => processHandshakeCommand host mech m
  | .writeCredential => writeCredential host mech m
  | .decodeAndPush => decodeAndPush host mech m
  | .pushOneThenDecodeAndPush => pushOneThenDecodeAndPush host m
  | .pushMsgToSession => call (host.pushMsg m)

abbrev processDecoded : EngineM μ ω Rc := StreamEngine.processDecoded (processMsgCall host mech)

abbrev decodeFrames : Nat → EngineM μ ω Rc := StreamEngine.decodeFrames (processMsgCall host mech)

/-- A codec for a peer that knows no mechanisms. -/
def handshakeLegacy (encoder : Encoder) (f : Engine μ → Engine μ) : EngineM μ ω Bool := do
  let e ← engine
  if e.options.zapEnabled then do
    error host mech .protocolError
    pure false
  else do
    update fun e => f { e with encoder := some encoder, decoder := some .init }
    pure true

/-- `zmtp_engine_t::handshake_v3_x` for a peer with the right mechanism. -/
def handshakeV3 (encoder : Encoder) (m : μ) : EngineM μ ω Bool := do
  update fun e => { e with
    encoder := some encoder
    decoder := some .init
    mechanism := some m
    nextMsg := .nextHandshakeCommand
    processMsg := .processHandshakeCommand }
  pure true

/-- `zmtp_engine_t::handshake`, and that of a raw engine, which has none. -/
def handshake : EngineM μ ω Bool := do
  let e ← engine
  if e.hasHandshakeStage then do
    let greeting ← call host.greeting
    match greeting with
    | .waiting => pure false
    | .lost => do
        error host mech .connectionError
        pure false
    | .unversioned frames => handshakeLegacy host mech .v1 fun e => { e with
        input := frames
        own.subscriptionRequired := e.options.publisher
        nextMsg := .pullMsgFromSession
        processMsg := .processRoutingIdMsg }
    | .v1_0 => handshakeLegacy host mech .v1 id
    | .v2_0 => handshakeLegacy host mech .v2 id
    | .mismatch => do
        error host mech .protocolError
        pure false
    | .v3_0 m => handshakeV3 .v2 m
    | .v3_1 m => handshakeV3 .v3_1 m
  else pure true

/-- `zmtp_engine_t` and `raw_engine_t`, as the base class sees them. -/
abbrev derived : Derived μ Empty ZmtpFields ω where
  nextMsg := nextMsgCall host mech
  processMsg := processMsgCall host mech
  handshake := handshake host mech

abbrev greeted : EngineM μ ω Bool := StreamEngine.greeted host (derived host mech)

abbrev decodeInput : EngineM μ ω Bool := StreamEngine.decodeInput host mech (derived host mech)

abbrev receive : EngineM μ ω Bool := StreamEngine.receive host mech (derived host mech)

abbrev inEventInternal : EngineM μ ω Bool :=
  StreamEngine.inEventInternal host mech (derived host mech)

abbrev inEvent : EngineM μ ω Unit := StreamEngine.inEvent host mech (derived host mech)

abbrev resumeInput : Rc → EngineM μ ω Bool := StreamEngine.resumeInput host mech (derived host mech)

abbrev restartInput : EngineM μ ω Bool := StreamEngine.restartInput host mech (derived host mech)

abbrev restartStopped : EngineM μ ω Bool :=
  StreamEngine.restartStopped host mech (derived host mech)

abbrev zapMsgAvailable : EngineM μ ω Unit :=
  StreamEngine.zapMsgAvailable host mech (derived host mech)

abbrev timerEvent : TimerId → EngineM μ ω Unit :=
  StreamEngine.timerEvent host mech (derived host mech)

abbrev handle : EngineEvent → EngineM μ ω Unit := StreamEngine.handle host mech (derived host mech)

/-- `raw_engine_t::plug_internal` up to the first event: the application learns that a
    peer has connected. -/
def plugRaw : EngineM μ ω Unit := do
  update fun e => { e with
    encoder := some .raw
    decoder := some .init
    nextMsg := .pullMsgFromSession
    processMsg := .pushMsgToSession }
  let e ← engine
  if e.options.rawNotify then do
    let _ ← call (host.pushMsg .init)
    call host.flush
  else pure ()

/-- What `zmtp_engine_t` and `raw_engine_t` do before the first event. -/
def plugInternal : EngineM μ ω Unit := do
  let e ← engine
  if e.hasHandshakeStage then
    update fun e => { e.setTimer .handshake (decide (0 < e.options.handshakeIvl)) with outsize := 10 }
  else plugRaw host

/-- `stream_engine_base_t::plug` with `zmtp_engine_t::plug_internal` or
    `raw_engine_t::plug_internal`. -/
def plug : EngineM μ ω Unit := do
  update fun e => { e with polled := true }
  plugInternal host
  inEvent host mech

end Engine

end Zmq
