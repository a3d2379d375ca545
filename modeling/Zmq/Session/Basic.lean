import Zmq.Engine.Basic

/-! # Sessions

`session_base_t` with its pipe and its engine. The session owns the first end of the pair,
the socket the second. The pipe is kept over a reconnect; ZMQ_IMMEDIATE is off. When the
session's end is gone, what is left of the pair at the socket does not concern the session
any more, and a later engine gets a new pair.

What the peer and the descriptor do in an event is its `Wire`. The ZAP pipe, the classes
derived from `session_base_t` and the draft disconnect message are not here.
-/

namespace Zmq

open Lib

/-- `options_t` as the session reads it. -/
structure SessionOptions where
  active : Bool := true
  /-- The type is ZMQ_SUB, ZMQ_XSUB or ZMQ_DISH. -/
  subscriber : Bool := false
  conflate : Bool := false
  rcvhwm : Int := 1000
  sndhwm : Int := 1000
  engine : EngineOptions := {}

/-- What the descriptor will give in an event, each kind of answer in its order. -/
structure Wire (μ : Type) where
  greetings : List (Greeting μ) := []
  reads : List Received := []
  writes : List (Option Nat) := []
  /-- What `try_lock` returns inside a conflating queue. -/
  tryLock : Bool := true

/-- `session_base_t` but for its engine. -/
structure Session (μ : Type) where
  options : SessionOptions
  pair : Pair
  hasPipe : Bool
  incompleteIn : Bool
  pending : Bool
  terminating : Bool
  hasLingerTimer : Bool
  wire : Wire μ

abbrev SessionM (μ : Type) := Program Fault (Session μ)

namespace Session

variable {μ : Type}

/-- The constructor; the pair is a placeholder until there is a pipe. -/
def new (options : SessionOptions) : Session μ where
  options := options
  pair := .attached (fun _ => 0) fun _ => false
  hasPipe := false
  incompleteIn := false
  pending := false
  terminating := false
  hasLingerTimer := false
  wire := {}

def pipe {α : Type} (x : Pair → Except Fault (α × Pair)) : SessionM μ α :=
  zoom Session.pair (fun s pair => { s with pair := pair }) x

/-- A call on the pipe that returns nothing, if there is a pipe. -/
def pipeDo (x : Pair → Except Fault Pair) : SessionM μ Unit := do
  let s ← get
  if s.hasPipe then pipe fun pair => (x pair).map fun pair => ((), pair) else pure ()

def pullMsg : SessionM μ (Option Msg) := do
  let s ← get
  if s.hasPipe then do
    let pulled ← pipe (Pair.read · .first)
    match pulled with
    | none => pure none
    | some m => do
        modify fun s => { s with incompleteIn := m.more }
        pure (some m)
  else pure none

def pushMsg (m : Msg) : SessionM μ (Rc × Msg) := do
  let s ← get
  if m.command && !m.isSubscribe && !m.isCancel then pure (.ok, m)
  else if s.hasPipe then do
    let written ← pipe (Pair.write · .first m s.wire.tryLock)
    if written then pure (.ok, .init) else pure (.again, m)
  else pure (.again, m)

def flush : SessionM μ Unit := pipeDo (Pair.flush · .first)

def rollback : SessionM μ Unit := pipeDo (Pair.rollback · .first)

def checkRead : SessionM μ Unit := pipeDo fun pair => (pair.checkRead .first).map (·.2)

def terminatePipe (delay : Bool) : SessionM μ Unit := do
  let s ← get
  pipeDo (Pair.terminate · .first delay s.wire.tryLock)

def hiccup : SessionM μ Unit := pipeDo (Pair.hiccup · .first)

/-- The loop of `clean_pipes`, over at most `n` frames. -/
def dropIncomplete : Nat → SessionM μ Unit
  | 0 => do
      let s ← get
      assert (!s.incompleteIn) .cleanPipes
  | n + 1 => do
      let s ← get
      if s.incompleteIn then do
        let pulled ← pullMsg
        assert pulled.isSome .cleanPipes
        dropIncomplete n
      else pure ()

def unread (s : Session μ) : Nat :=
  ((s.pair.queue .first (s.pair.pipe .first).inPipe).map Upipe.pending).getD 0

/-- `session_base_t::clean_pipes`, if there is a pipe. -/
def cleanPipes : SessionM μ Unit := do
  let s ← get
  if s.hasPipe then do
    rollback
    flush
    dropIncomplete s.unread
  else pure ()

/-- `session_base_t::reconnect`. The connecter it launches attaches the next engine. -/
def reconnect : SessionM μ Unit := do
  let s ← get
  onlyIf s.options.subscriber hiccup

/-- The end of a connection that is not tried again. The request to terminate goes to the
    owner of the session. -/
def giveUp : SessionM μ Unit := do
  let s ← get
  onlyIf s.pending (terminatePipe false)

def afterError (reason : ErrorReason) : SessionM μ Unit := do
  let s ← get
  if s.options.active && reason != .protocolError then reconnect else giveUp

def engineError (_handshaked : Bool) (reason : ErrorReason) : SessionM μ Unit := do
  cleanPipes
  afterError reason
  checkRead

def engineReady : SessionM μ Unit :=
  modify fun s =>
    if !s.hasPipe && !s.terminating then
      let hwms : End → Int := fun e =>
        if s.options.conflate then -1
        else match e with
          | .first => s.options.rcvhwm
          | .second => s.options.sndhwm
      { s with pair := .attached hwms fun _ => s.options.conflate, hasPipe := true }
    else s

def processTerm (linger : Int) (engine : Bool) : SessionM μ Unit := do
  let s ← get
  assert (!s.pending) .processTerm
  if s.hasPipe then do
    modify fun s => { s with pending := true, hasLingerTimer := decide (0 < linger) }
    terminatePipe (decide (linger ≠ 0))
    onlyIf (!engine) checkRead
  else modify fun s => { s with terminating := true }

def lingerExpired : SessionM μ Unit := do
  modify fun s => { s with hasLingerTimer := false }
  let s ← get
  assert s.hasPipe .timerEvent
  terminatePipe false

/-- The next answer of each kind; without one there is nothing to read and nothing can be
    written. -/
def nextGreeting : SessionM μ (Greeting μ) := fun s =>
  match s.wire.greetings with
  | [] => .ok (.waiting, s)
  | g :: rest => .ok (g, { s with wire := { s.wire with greetings := rest } })

def nextRead : SessionM μ Received := fun s =>
  match s.wire.reads with
  | [] => .ok (.again, s)
  | r :: rest => .ok (r, { s with wire := { s.wire with reads := rest } })

def nextWrite (size : Nat) : SessionM μ (Option Nat) := fun s =>
  match s.wire.writes with
  | [] => .ok (none, s)
  | n :: rest => .ok (n.map (min size), { s with wire := { s.wire with writes := rest } })

def host : Host μ (Session μ) where
  pushMsg := pushMsg
  pullMsg := pullMsg
  flush := flush
  rollback := rollback
  engineReady := engineReady
  engineError := engineError
  greeting := nextGreeting
  read := nextRead
  write := nextWrite

end Session

end Zmq
