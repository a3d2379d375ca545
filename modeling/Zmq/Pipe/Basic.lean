import Zmq.Lib.Run
import Zmq.Upipe

/-! # A pair of pipe endpoints

`pipe_t` with the object on its other side. The state has both endpoints, the
commands in flight to each of them and the message queues. A queue is named by
the end that reads it and by how many queues were allocated for that end before
it; `none` is memory that is not allocated, or not any more.

Calls are atomic. A failed `zmq_assert`, a null or dangling pointer and a
command for a deallocated pipe stop the run with a `Fault`. Watermarks are C
`int`s modelled without overflow, which is undefined in the source; the three
message counters are `uint64_t` and do wrap.
-/

namespace Zmq

open Lib Function

/-- The two endpoints `pipepair` returns. -/
inductive End where
  | first
  | second
  deriving Repr, DecidableEq

def End.peer : End → End
  | .first => .second
  | .second => .first

@[simp] theorem End.peer_peer (e : End) : e.peer.peer = e := by cases e <;> rfl
@[simp] theorem End.peer_ne (e : End) : e.peer ≠ e := by cases e <;> decide
@[simp] theorem End.ne_peer (e : End) : e ≠ e.peer := by cases e <;> decide

theorem End.eq_or_peer (x e : End) : x = e ∨ x = e.peer := by
  cases x <;> cases e <;> simp [End.peer]

theorem End.both {P : End → Prop} (e : End) (own : P e) (other : P e.peer) (x : End) : P x := by
  cases x <;> cases e <;> assumption

instance {P : End → Prop} [DecidablePred P] : Decidable (∀ e, P e) :=
  decidable_of_iff (P .first ∧ P .second)
    ⟨fun both e => by cases e with | first => exact both.1 | second => exact both.2,
      fun all => ⟨all _, all _⟩⟩

inductive PipeState where
  | active
  | delimiterReceived
  | waitingForDelimiter
  | termAckSent
  | termReqSent1
  | termReqSent2
  deriving Repr, DecidableEq

/-- The functions whose assertions can fail. -/
inductive AssertSite where
  | checkRead
  | probe
  | rollback
  | processDelimiter
  | processHiccup
  | processPipeTerm
  | processPipeTermAck
  | sendRoutingId
  | connectInprocSockets
  | recvpipe
  | inEventInternal
  | decoder
  | outEvent
  | encoder
  | encode
  | restartInput
  | nextHandshakeCommand
  | processHandshakeCommand
  | zapMsgAvailable
  | writeCredential
  | pullAndEncode
  | decodeAndPush
  | producePingMessage
  | producePongMessage
  | processRoutingIdMsg
  | processAttach
  | cleanPipes
  | processTerm
  | timerEvent
  | hiccuped
  | receiveAndProcessZapReply
  | plainServer
  | produceHello
  | produceError
  | processInitiate
  | processWelcome
  | xhiccuped
  | trieAdd
  | trieRm
  | mtrieRm
  | xattachPipe
  | reqXsend
  | reqXrecv
  | streamXsend
  | identifyPeer
  | addOutPipe
  | eraseOutPipe
  | xwriteActivated
  | repXrecv
  | loadMsg
  | decode
  | setMetadata
  | msgData
  | dishPushMsg
  | radioPushMsg
  | distribute
  | addRefs
  | rmRefs
  | setOwner
  | unregisterTermAck
  | checkTermAcks
  deriving Repr, DecidableEq

inductive Fault where
  | assertion (site : AssertSite)
  | nullPointer
  | useAfterFree
  /-- `send_command` reads the thread id of a pipe that is gone. -/
  | deadDestination
  | outOfBounds
  /-- `array_t` holds an item at most once. -/
  | attachedTwice
  deriving Repr, DecidableEq

/-- The commands pipes send each other. -/
inductive Command where
  | activateRead
  | activateWrite (msgsRead : UInt64)
  | hiccup (pipe : Nat)
  | pipePeerStats (queueCount : UInt64)
  | pipeTerm
  | pipeTermAck
  | pipeHwm (inhwm outhwm : Int)
  deriving Repr, DecidableEq

/-- What a pipe tells its sink, or the socket asking for statistics. -/
inductive Event where
  | readActivated
  | writeActivated
  | hiccuped
  | pipeTerminated
  | statsPublish (outbound inbound : UInt64)
  deriving Repr, DecidableEq

structure Pipe where
  inPipe : Nat
  outPipe : Option Nat
  inActive : Bool
  outActive : Bool
  hwm : Int
  lwm : Int
  inHwmBoost : Int
  outHwmBoost : Int
  msgsRead : UInt64
  msgsWritten : UInt64
  peersMsgsRead : UInt64
  sink : Bool
  state : PipeState
  delay : Bool
  conflate : Bool
  disconnectMsg : Msg
  deleted : Bool

/-- What an `int` keeps of a number: sums are not tested for overflow, and wrap. -/
def int (n : Int) : Int := n.bmod (2 ^ 32)

theorem int_eq_self {n : Int} (low : 0 ≤ n) (high : n < 2 ^ 31) : int n = n :=
  Int.bmod_eq_of_le (by omega) (by omega)

namespace Pipe

def computeLwm (hwm : Int) : Int := (int (hwm + 1)).tdiv 2

/-- The constructor, for the first queues of both directions. -/
def new (inhwm outhwm : Int) (conflate : Bool) : Pipe where
  inPipe := 0
  outPipe := some 0
  inActive := true
  outActive := true
  hwm := outhwm
  lwm := computeLwm inhwm
  inHwmBoost := -1
  outHwmBoost := -1
  msgsRead := 0
  msgsWritten := 0
  peersMsgsRead := 0
  sink := false
  state := .active
  delay := true
  conflate := conflate
  disconnectMsg := .init
  deleted := false

variable (p : Pipe)

def checkHwm : Bool :=
  !(decide (0 < p.hwm) && decide (p.hwm.toNat ≤ (p.msgsWritten - p.peersMsgsRead).toNat))

/-- `pipe_t::set_hwms`. A side with no limit makes the sum unlimited. -/
def setHwms (inhwm outhwm : Int) : Pipe :=
  let inSum := if inhwm ≤ 0 ∨ p.inHwmBoost = 0 then 0 else int (inhwm + max p.inHwmBoost 0)
  let outSum := if outhwm ≤ 0 ∨ p.outHwmBoost = 0 then 0 else int (outhwm + max p.outHwmBoost 0)
  { p with lwm := computeLwm inSum, hwm := outSum }

def setHwmsBoost (inhwmboost outhwmboost : Int) : Pipe :=
  { p with inHwmBoost := inhwmboost, outHwmBoost := outhwmboost }

/-- The guard at the head of `check_read` and `read`. -/
def readable : Bool :=
  p.inActive && (p.state == .active || p.state == .waitingForDelimiter)

/-- A message the flow control of the reader counts. -/
def countRead (m : Msg) : Pipe :=
  if !m.more && !m.isRoutingId then { p with msgsRead := p.msgsRead + 1 } else p

/-- A message the flow control of the writer counts. -/
def countWritten (m : Msg) : Pipe :=
  if !m.more && !m.isRoutingId then { p with msgsWritten := p.msgsWritten + 1 } else p

def reports : Bool :=
  decide (0 < p.lwm) && p.msgsRead.toNat % p.lwm.toNat == 0

/-! Counting and limits leave the rest of a pipe alone. -/

section Fields

variable (p : Pipe) (m : Msg) (i o : Int)

@[simp] theorem countRead_fields :
    (p.countRead m).inPipe = p.inPipe ∧ (p.countRead m).outPipe = p.outPipe ∧
    (p.countRead m).inActive = p.inActive ∧ (p.countRead m).outActive = p.outActive ∧
    (p.countRead m).hwm = p.hwm ∧ (p.countRead m).lwm = p.lwm ∧
    (p.countRead m).msgsWritten = p.msgsWritten ∧ (p.countRead m).peersMsgsRead = p.peersMsgsRead ∧
    (p.countRead m).sink = p.sink ∧ (p.countRead m).state = p.state ∧
    (p.countRead m).delay = p.delay ∧ (p.countRead m).conflate = p.conflate ∧
    (p.countRead m).disconnectMsg = p.disconnectMsg ∧ (p.countRead m).deleted = p.deleted := by
  unfold countRead
  split <;> simp

@[simp] theorem countWritten_fields :
    (p.countWritten m).inPipe = p.inPipe ∧ (p.countWritten m).outPipe = p.outPipe ∧
    (p.countWritten m).inActive = p.inActive ∧ (p.countWritten m).outActive = p.outActive ∧
    (p.countWritten m).hwm = p.hwm ∧ (p.countWritten m).lwm = p.lwm ∧
    (p.countWritten m).msgsRead = p.msgsRead ∧ (p.countWritten m).peersMsgsRead = p.peersMsgsRead ∧
    (p.countWritten m).sink = p.sink ∧ (p.countWritten m).state = p.state ∧
    (p.countWritten m).delay = p.delay ∧ (p.countWritten m).conflate = p.conflate ∧
    (p.countWritten m).disconnectMsg = p.disconnectMsg ∧
    (p.countWritten m).deleted = p.deleted := by
  unfold countWritten
  split <;> simp

end Fields

end Pipe

/-- Both endpoints, the commands on their way and the queues. -/
structure Pair where
  pipe : End → Pipe
  mailbox : End → List Command
  queue : End → Nat → Option Upipe

namespace Pair

/-- `pipepair`. The first watermark is for messages from the first pipe to the
    second. -/
def pipepair (hwms : End → Int) (conflate : End → Bool) : Pair where
  pipe e := .new (hwms e.peer) (hwms e) (conflate e)
  mailbox _ := []
  queue e k := if k = 0 then some (.new (conflate e)) else none

variable (s : Pair)

@[simps -fullyApplied queue mailbox]
def setPipe (e : End) (p : Pipe) : Pair :=
  { s with pipe := update s.pipe e p }

@[simps -fullyApplied pipe mailbox]
def setQueue (e : End) (k : Nat) (u : Option Upipe) : Pair :=
  { s with queue := update s.queue e (update (s.queue e) k u) }

@[simps -fullyApplied pipe queue]
def setMailbox (e : End) (commands : List Command) : Pair :=
  { s with mailbox := update s.mailbox e commands }

/-- `object_t::send_command` with the peer as destination. -/
def send (e : End) (command : Command) : Except Fault Pair :=
  if (s.pipe e.peer).deleted then .error .deadDestination
  else .ok (s.setMailbox e.peer (s.mailbox e.peer ++ [command]))

/-- Follow a pointer to the `k`-th queue read by `e`. -/
def deref (e : End) (k : Nat) : Except Fault Upipe :=
  match s.queue e k with
  | some u => .ok u
  | none => .error .useAfterFree

/-- Tell the sink something; a pipe without one follows a null pointer. -/
def notify (e : End) (event : Event) : Except Fault (Pair × Option Event) :=
  if (s.pipe e).sink then .ok (s, some event) else .error .nullPointer

def rollback (s : Pair) (e : End) : Except Fault Pair :=
  match (s.pipe e).outPipe with
  | none => .ok s
  | some k => do
      let q ← s.deref e.peer k
      match q.rollback q.unfinished with
      | some q' => .ok (s.setQueue e.peer k (some q'))
      | none => .error (.assertion .rollback)

def flush (s : Pair) (e : End) : Except Fault Pair :=
  if (s.pipe e).state = .termAckSent then .ok s
  else
    match (s.pipe e).outPipe with
    | none => .ok s
    | some k => do
        let q ← s.deref e.peer k
        let s := s.setQueue e.peer k (some q.flush.2)
        if q.flush.1 then .ok s else s.send e .activateRead

/-- `_out_pipe = NULL`, the acknowledgement and the new state, as every path
    that answers a termination request does it. -/
def sendPipeTermAck (e : End) (state : PipeState) : Except Fault Pair :=
  (s.setPipe e { s.pipe e with outPipe := none, state := state }).send e .pipeTermAck

def processDelimiter (s : Pair) (e : End) : Except Fault Pair :=
  match (s.pipe e).state with
  | .active => .ok (s.setPipe e { s.pipe e with state := .delimiterReceived })
  | .waitingForDelimiter => do
      let s ← s.rollback e
      s.sendPipeTermAck e .termAckSent
  | _ => .error (.assertion .processDelimiter)

def checkRead (s : Pair) (e : End) : Except Fault (Bool × Pair) :=
  if (s.pipe e).readable then do
    let k := (s.pipe e).inPipe
    let q ← s.deref e k
    if q.checkRead.1 then
      match q.checkRead.2.probe Msg.isDelimiter with
      | some true =>
        match q.checkRead.2.read with
        | (some _, q') => do
            let s ← (s.setQueue e k (some q')).processDelimiter e
            .ok (false, s)
        | (none, _) => .error (.assertion .checkRead)
      | some false => .ok (true, s.setQueue e k (some q.checkRead.2))
      | none => .error (.assertion .probe)
    else
      .ok (false, (s.setQueue e k (some q.checkRead.2)).setPipe e
        { s.pipe e with inActive := false })
  else .ok (false, s)

/-- The end of `pipe_t::read`, once a message that is no delimiter was taken:
    count it and, at every multiple of the low watermark, report the count. -/
def acceptRead (e : End) (m : Msg) : Except Fault Pair :=
  let s := s.setPipe e ((s.pipe e).countRead m)
  if (s.pipe e).reports then s.send e (.activateWrite (s.pipe e).msgsRead) else .ok s

def read (e : End) : Except Fault (Option Msg × Pair) :=
  if (s.pipe e).readable then do
    let k := (s.pipe e).inPipe
    let q ← s.deref e k
    match q.readData q.pending with
    | (none, q') =>
      .ok (none, (s.setQueue e k (some q')).setPipe e { s.pipe e with inActive := false })
    | (some m, q') =>
      let s := s.setQueue e k (some q')
      if m.isDelimiter then do
        let s ← s.processDelimiter e
        .ok (none, s)
      else do
        let s ← s.acceptRead e m
        .ok (some m, s)
  else .ok (none, s)

def checkWrite (e : End) : Bool × Pair :=
  if !(s.pipe e).outActive || (s.pipe e).state != .active then (false, s)
  else if !(s.pipe e).checkHwm then
    (false, s.setPipe e { s.pipe e with outActive := false })
  else (true, s)

def write (s : Pair) (e : End) (m : Msg) (tryLock : Bool) : Except Fault (Bool × Pair) :=
  if (s.checkWrite e).1 then
    match (s.pipe e).outPipe with
    | none => .error .nullPointer
    | some k => do
        let q ← s.deref e.peer k
        .ok (true, (s.setQueue e.peer k (some (q.write m m.more tryLock))).setPipe e
          ((s.pipe e).countWritten m))
  else .ok (false, (s.checkWrite e).2)

/-- The end of `pipe_t::terminate`: stop the outbound flow, drop what is
    unfinished and leave a delimiter behind. Watermarks are not checked. -/
def writeDelimiter (e : End) (tryLock : Bool) : Except Fault Pair := do
  let s := s.setPipe e { s.pipe e with outActive := false }
  match (s.pipe e).outPipe with
  | none => .ok s
  | some k =>
    let s ← s.rollback e
    let q ← s.deref e.peer k
    (s.setQueue e.peer k (some (q.write .initDelimiter false tryLock))).flush e

def terminate (e : End) (delay tryLock : Bool) : Except Fault Pair :=
  let s := s.setPipe e { s.pipe e with delay := delay }
  match (s.pipe e).state with
  | .termReqSent1 | .termReqSent2 | .termAckSent => .ok s
  | .active | .delimiterReceived => do
      let s ← s.send e .pipeTerm
      let s := s.setPipe e { s.pipe e with state := .termReqSent1 }
      s.writeDelimiter e tryLock
  | .waitingForDelimiter =>
    if delay then s.writeDelimiter e tryLock
    else do
      let s ← s.rollback e
      let s ← s.sendPipeTermAck e .termAckSent
      s.writeDelimiter e tryLock

def hiccup (s : Pair) (e : End) : Except Fault Pair :=
  if (s.pipe e).state = .active then
    let k := (s.pipe e).inPipe + 1
    ((s.setQueue e k (some (.new (s.pipe e).conflate))).setPipe e
      { s.pipe e with inPipe := k, inActive := true }).send e (.hiccup k)
  else .ok s

def sendHwmsToPeer (e : End) (inhwm outhwm : Int) : Except Fault Pair :=
  s.send e (.pipeHwm inhwm outhwm)

def sendStatsToPeer (e : End) : Except Fault Pair :=
  s.send e (.pipePeerStats ((s.pipe e).msgsWritten - (s.pipe e).peersMsgsRead))

/-- `pipe_t::send_disconnect_msg`. The queue pointer is not tested. -/
def sendDisconnectMsg (e : End) (tryLock : Bool) : Except Fault Pair :=
  if 0 < (s.pipe e).disconnectMsg.size then do
    let s ← s.rollback e
    match (s.pipe e).outPipe with
    | none => .error .nullPointer
    | some k => do
        let q ← s.deref e.peer k
        let s ← (s.setQueue e.peer k
          (some (q.write (s.pipe e).disconnectMsg false tryLock))).flush e
        .ok (s.setPipe e { s.pipe e with disconnectMsg := .init })
  else .ok s

def processActivateRead (e : End) : Except Fault (Pair × Option Event) :=
  if !(s.pipe e).inActive &&
      ((s.pipe e).state == .active || (s.pipe e).state == .waitingForDelimiter) then
    (s.setPipe e { s.pipe e with inActive := true }).notify e .readActivated
  else .ok (s, none)

def processActivateWrite (e : End) (msgsRead : UInt64) : Except Fault (Pair × Option Event) :=
  let s := s.setPipe e { s.pipe e with peersMsgsRead := msgsRead }
  if !(s.pipe e).outActive && (s.pipe e).state == .active then
    (s.setPipe e { s.pipe e with outActive := true }).notify e .writeActivated
  else .ok (s, none)

/-- `pipe_t::process_hiccup`. The drained messages are counted back, delimiter
    and routing id included. -/
def processHiccup (s : Pair) (e : End) (pipe : Nat) : Except Fault (Pair × Option Event) :=
  match (s.pipe e).outPipe with
  | none => .error (.assertion .processHiccup)
  | some old => do
      let q ← s.deref e.peer old
      let drained := q.flush.2.drain q.flush.2.pending
      let s := (s.setQueue e.peer old none).setPipe e { s.pipe e with
          msgsWritten := (s.pipe e).msgsWritten - .ofNat (drained.countP (!·.more))
          outPipe := some pipe
          outActive := true }
      if (s.pipe e).state = .active then s.notify e .hiccuped else .ok (s, none)

def processPipeTerm (s : Pair) (e : End) : Except Fault Pair :=
  match (s.pipe e).state with
  | .active =>
    if (s.pipe e).delay then
      .ok (s.setPipe e { s.pipe e with state := .waitingForDelimiter })
    else s.sendPipeTermAck e .termAckSent
  | .delimiterReceived => s.sendPipeTermAck e .termAckSent
  | .termReqSent1 => s.sendPipeTermAck e .termReqSent2
  | _ => .error (.assertion .processPipeTerm)

/-- The last two lines of `pipe_t::process_pipe_term_ack`. Closing the messages
    still in the queue has no other effect, so only the deletion is left of it. -/
def deallocate (e : End) : Except Fault Pair := do
  let _ ← s.deref e (s.pipe e).inPipe
  .ok ((s.setQueue e (s.pipe e).inPipe none).setPipe e { s.pipe e with deleted := true })

def processPipeTermAck (s : Pair) (e : End) : Except Fault (Pair × Option Event) :=
  if (s.pipe e).sink then do
    let s ← match (s.pipe e).state with
      | .termReqSent1 => s.sendPipeTermAck e .termReqSent1
      | .termAckSent | .termReqSent2 => .ok s
      | _ => .error (.assertion .processPipeTermAck)
    let s ← s.deallocate e
    .ok (s, some .pipeTerminated)
  else .error (.assertion .processPipeTermAck)

/-- `object_t::process_command` for the commands pipes receive. -/
def processCommand (e : End) : Command → Except Fault (Pair × Option Event)
  | .activateRead => s.processActivateRead e
  | .activateWrite msgsRead => s.processActivateWrite e msgsRead
  | .hiccup pipe => s.processHiccup e pipe
  | .pipePeerStats queueCount =>
    .ok (s, some (.statsPublish queueCount ((s.pipe e).msgsWritten - (s.pipe e).peersMsgsRead)))
  | .pipeTerm => do
      let s ← s.processPipeTerm e
      .ok (s, none)
  | .pipeTermAck => s.processPipeTermAck e
  | .pipeHwm inhwm outhwm => .ok (s.setPipe e ((s.pipe e).setHwms inhwm outhwm), none)

/-- The owning thread takes the oldest command for `e` and executes it. -/
def deliver (e : End) : Except Fault (Pair × Option Event) :=
  match s.mailbox e with
  | [] => .ok (s, none)
  | command :: rest =>
    if (s.pipe e).deleted then .error .useAfterFree
    else (s.setMailbox e rest).processCommand e command

end Pair

/-- Everything that can happen to a pair: a public call on one end, or the
    delivery of the oldest command for it. -/
inductive Action where
  | checkRead
  | read
  | checkWrite
  | write (m : Msg) (tryLock : Bool)
  | rollback
  | flush
  | hiccup
  | setNodelay
  | terminate (delay tryLock : Bool)
  | setHwms (inhwm outhwm : Int)
  | setHwmsBoost (inhwmboost outhwmboost : Int)
  | sendHwmsToPeer (inhwm outhwm : Int)
  | sendStatsToPeer
  | sendDisconnectMsg (tryLock : Bool)
  | setDisconnectMsg (disconnect : List UInt8)
  | deliver
  deriving Repr, DecidableEq

namespace Pair

def step (s : Pair) : End × Action → Except Fault Pair
  | (e, .checkRead) => (s.checkRead e).map (·.2)
  | (e, .read) => (s.read e).map (·.2)
  | (e, .checkWrite) => .ok (s.checkWrite e).2
  | (e, .write m tryLock) => (s.write e m tryLock).map (·.2)
  | (e, .rollback) => s.rollback e
  | (e, .flush) => s.flush e
  | (e, .hiccup) => s.hiccup e
  | (e, .setNodelay) => .ok (s.setPipe e { s.pipe e with delay := false })
  | (e, .terminate delay tryLock) => s.terminate e delay tryLock
  | (e, .setHwms inhwm outhwm) => .ok (s.setPipe e ((s.pipe e).setHwms inhwm outhwm))
  | (e, .setHwmsBoost inhwmboost outhwmboost) =>
    .ok (s.setPipe e ((s.pipe e).setHwmsBoost inhwmboost outhwmboost))
  | (e, .sendHwmsToPeer inhwm outhwm) => s.sendHwmsToPeer e inhwm outhwm
  | (e, .sendStatsToPeer) => s.sendStatsToPeer e
  | (e, .sendDisconnectMsg tryLock) => s.sendDisconnectMsg e tryLock
  | (e, .setDisconnectMsg disconnect) =>
    .ok (s.setPipe e { s.pipe e with disconnectMsg := { data := disconnect } })
  | (e, .deliver) => (s.deliver e).map (·.1)

/-- A new pair whose owners have called `set_event_sink`. -/
def attached (hwms : End → Int) (conflate : End → Bool) : Pair :=
  { pipepair hwms conflate with
    pipe := fun e => { (pipepair hwms conflate).pipe e with sink := true } }

theorem new_of_attached {hwms : End → Int} {conflate : End → Bool} {e : End} {k : Nat} {q : Upipe}
    (found : (attached hwms conflate).queue e k = some q) : q = .new (conflate e) := by
  simp only [attached, pipepair] at found
  split at found
  · exact (Option.some.inj found).symm
  · cases found

/-- Callers hold a pipe until it is terminated, and only pending commands are
    delivered. -/
def CanAct (s : Pair) (a : End × Action) : Prop :=
  if a.2 = .deliver then s.mailbox a.1 ≠ [] else (s.pipe a.1).deleted = false

instance (s : Pair) (a : End × Action) : Decidable (s.CanAct a) :=
  inferInstanceAs (Decidable
    (if a.2 = .deliver then s.mailbox a.1 ≠ [] else (s.pipe a.1).deleted = false))

section

variable (s : Pair)
include s

section

variable (e : End)
include e

@[simp] theorem setPipe_self (p : Pipe) : (s.setPipe e p).pipe e = p :=
  update_self ..
@[simp] theorem setPipe_peer (p : Pipe) :
    (s.setPipe e p).pipe e.peer = s.pipe e.peer := update_of_ne e.peer_ne ..
section

variable (k : Nat) (u : Option Upipe)
include k u

@[simp] theorem setQueue_self : (s.setQueue e k u).queue e k = u := by simp [setQueue]
@[simp] theorem setQueue_queue :
    (s.setQueue e k u).queue e = update (s.queue e) k u := update_self ..
@[simp] theorem setQueue_peer :
    (s.setQueue e k u).queue e.peer = s.queue e.peer := update_of_ne e.peer_ne ..
@[simp] theorem setQueue_of_peer :
    (s.setQueue e.peer k u).queue e = s.queue e := update_of_ne e.ne_peer ..

end

@[simp] theorem setMailbox_self (cs : List Command) :
    (s.setMailbox e cs).mailbox e = cs := update_self ..
@[simp] theorem setMailbox_peer (cs : List Command) :
    (s.setMailbox e cs).mailbox e.peer = s.mailbox e.peer := update_of_ne e.peer_ne ..
@[simp] theorem setMailbox_of_peer (cs : List Command) :
    (s.setMailbox e.peer cs).mailbox e = s.mailbox e := update_of_ne e.ne_peer ..

theorem setQueue_of_ne {k j : Nat} (other : j ≠ k) (u : Option Upipe) :
    (s.setQueue e k u).queue e j = s.queue e j := by
  simp [update_of_ne other]

end

end

theorem send_ok {s t : Pair} {e : End} {c : Command} :
    s.send e c = .ok t ↔ (s.pipe e.peer).deleted = false ∧
      t = s.setMailbox e.peer (s.mailbox e.peer ++ [c]) := by
  unfold send
  cases (s.pipe e.peer).deleted <;> simp [eq_comm]

end Pair

end Zmq
