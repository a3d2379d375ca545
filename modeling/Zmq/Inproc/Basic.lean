import Zmq.Pipe.Watermark

/-! # Inproc connections

`socket_base_t::connect_internal` for inproc addresses, with what `ctx_t` does when
the address is bound later, and the part of `setsockopt` that reaches live pipes.
The first end of a pair belongs to the socket that connects, the second to the one
that binds. Hello and disconnect messages are a draft feature and not here.

The sinks of both pipes are set from the start: the connecting socket attaches its
own before anything else happens, and the `bind` command comes before every command
to the other pipe.
-/

namespace Zmq

/-- The part of `options_t` that inproc connections look at. `setsockopt` accepts no
    negative watermark. -/
structure Options where
  sndhwm : Nat := 1000
  rcvhwm : Nat := 1000
  routingId : List UInt8 := []
  recvRoutingId : Bool := false
  /-- `get_effective_conflate_option`. -/
  conflate : Bool := false
  deriving Repr, DecidableEq

def Options.routingIdMsg (options : Options) : Msg :=
  { Msg.initSize options.routingId with flags := MsgFlag.routingId }

namespace Options

variable (options : Options)

@[simp] theorem routingIdMsg_counts : options.routingIdMsg.counts = false := by
  simp only [Msg.counts, Msg.more, Msg.isRoutingId, routingIdMsg]
  decide

@[simp] theorem routingIdMsg_more : options.routingIdMsg.more = false := by
  simp only [Msg.more, routingIdMsg]
  decide

@[simp] theorem routingIdMsg_isCredential : options.routingIdMsg.isCredential = false := by
  simp only [Msg.isCredential, routingIdMsg]
  decide

@[simp] theorem routingIdMsg_isDelimiter : options.routingIdMsg.isDelimiter = false := by
  simp only [routingIdMsg, Msg.initSize]
  split <;> rfl

end Options

namespace Pair

def sendRoutingId (s : Pair) (e : End) (options : Options) (tryLock : Bool) :
    Except Fault Pair := do
  let (written, s) ← s.write e options.routingIdMsg tryLock
  if written then s.flush e else .error (.assertion .sendRoutingId)

/-- Send it if the other side has `recv_routing_id`. -/
def offerRoutingId (s : Pair) (e : End) (wanted : Bool) (options : Options) (tryLock : Bool) :
    Except Fault Pair :=
  if wanted then s.sendRoutingId e options tryLock else .ok s

/-- Read it back if this side does not have `recv_routing_id`. -/
def dropRoutingId (s : Pair) (e : End) (wanted : Bool) : Except Fault Pair :=
  if wanted then .ok s
  else
    match s.read e with
    | .ok (some _, s) => .ok s
    | .ok (none, _) => .error (.assertion .connectInprocSockets)
    | .error fault => .error fault

def setHwms (s : Pair) (e : End) (inhwm outhwm : Int) : Pair :=
  s.setPipe e ((s.pipe e).setHwms inhwm outhwm)

def setHwmsBoost (s : Pair) (e : End) (inhwmboost outhwmboost : Int) : Pair :=
  s.setPipe e ((s.pipe e).setHwmsBoost inhwmboost outhwmboost)

end Pair

namespace Inproc

/-- The watermark of one direction of a new connection: the sum of both sides, where
    no limit on one side is no limit at all. Before the bind one side is known. -/
def totalHwm (own : Nat) : Option Nat → Int
  | none => own
  | some peer => if own ≠ 0 ∧ peer ≠ 0 then int (own + peer) else 0

/-- The pipes `connect_internal` makes. `peer` are the options the address was bound
    with, if it was; `find_endpoint` returns default options otherwise. -/
def newPipes (own : Options) (peer : Option Options) : Pair :=
  let hwms : End → Int
    | .first => if own.conflate then -1 else totalHwm own.sndhwm (peer.map (·.rcvhwm))
    | .second => if own.conflate then -1 else totalHwm own.rcvhwm (peer.map (·.sndhwm))
  let s := Pair.attached hwms fun _ => own.conflate
  let boost := peer.getD {}
  if own.conflate then s
  else (s.setHwmsBoost .first boost.sndhwm boost.rcvhwm).setHwmsBoost .second own.sndhwm own.rcvhwm

/-- `socket_base_t::connect_internal`. Before the bind the routing id is always sent,
    and dropped later if nobody expects it. -/
def connectInternal (own : Options) (peer : Option Options) (tryLock : Bool) : Except Fault Pair :=
  match peer with
  | none => (newPipes own none).sendRoutingId .first own tryLock
  | some bound => do
      let s ← (newPipes own (some bound)).offerRoutingId .first bound.recvRoutingId own tryLock
      s.offerRoutingId .second own.recvRoutingId bound tryLock

def joinHwms (s : Pair) (bind own : Options) : Pair :=
  if own.conflate then (s.setHwms .first (-1) (-1)).setHwms .second (-1) (-1)
  else
    let s := s.setHwmsBoost .first bind.sndhwm bind.rcvhwm
    let s := s.setHwmsBoost .second own.sndhwm own.rcvhwm
    let s := s.setHwms .first own.rcvhwm own.sndhwm
    s.setHwms .second bind.rcvhwm bind.sndhwm

/-- `ctx_t::connect_inproc_sockets`, for both sides. `own` are the options of the
    connecting socket when it connected, and `isOpen` is its `check_tag`. -/
def connectInprocSockets (s : Pair) (bind own : Options) (isOpen tryLock : Bool) :
    Except Fault Pair := do
  let s ← s.dropRoutingId .second bind.recvRoutingId
  (joinHwms s bind own).offerRoutingId .second (own.recvRoutingId && isOpen) bind tryLock

/-- `ZMQ_SNDHWM` and `ZMQ_RCVHWM`. -/
inductive HwmOption where
  | sndhwm
  | rcvhwm
  deriving Repr, DecidableEq

/-- `options_t::setsockopt` for these: negative values are refused. -/
def setOption (options : Options) (option : HwmOption) (value : Int) : Options :=
  if value < 0 then options
  else
    match option with
    | .sndhwm => { options with sndhwm := value.toNat }
    | .rcvhwm => { options with rcvhwm := value.toNat }

/-- `socket_base_t::update_pipe_options`, for one pipe. It runs whether or not the
    option was accepted. -/
def updatePipeOptions (s : Pair) (e : End) (options : Options) : Except Fault Pair :=
  (s.setHwms e options.rcvhwm options.sndhwm).sendHwmsToPeer e options.sndhwm options.rcvhwm

/-- What a socket does with an inproc pipe between connect and disconnect. Users
    cannot make delimiters or credentials. -/
def uses : Action → Bool
  | .checkRead | .read | .checkWrite | .rollback | .flush | .deliver => true
  | .write m _ => !m.isDelimiter && !m.isCredential
  | _ => false

end Inproc

/-! ## Connected pairs -/

namespace Pair

open Lib

/-- Both directions of a pair are in use, and no end counts what the other does
    not. -/
structure Talking (s : Pair) : Prop where
  flowing : ∀ e, ∃ y c, s.Flowing e y c
  even : ∀ e, s.Even e

def harmless : Action → Bool
  | .hiccup | .terminate .. | .sendDisconnectMsg _ => false
  | .write m _ => !m.isDelimiter && !m.isCredential
  | _ => true

variable {s t : Pair} {e x : End} {a : Action}

theorem harmless_of_uses (uses : Inproc.uses a = true) : harmless a = true := by
  cases a <;> first | rfl | exact uses

theorem still_of_uses (uses : Inproc.uses a = true) : a.tunes = false := by
  cases a <;> first | rfl | cases uses

theorem steady_of_harmless (harmless : harmless a = true) : steady e (x, a) = true := by
  cases a with
  | write m lock =>
    simp only [Pair.harmless, Bool.and_eq_true] at harmless
    exact harmless.1
  | hiccup | terminate | sendDisconnectMsg => cases harmless
  | _ => rfl

namespace Talking

section

variable (talking : s.Talking)
include talking

theorem can (call : a ≠ .deliver) : s.CanAct (x, a) := by
  obtain ⟨y, c, flowing⟩ := talking.flowing x
  rw [CanAct, if_neg call]
  exact flowing.calm.stays flowing.sound x

theorem outcome (can : s.CanAct (x, a)) (taken : s.step (x, a) = .ok t) : Outcome s x a t := by
  obtain ⟨y, c, flowing⟩ := talking.flowing x
  exact flowing.outcome can taken

theorem step (can : s.CanAct (x, a)) (harmless : harmless a = true)
    (taken : s.step (x, a) = .ok t) : t.Talking where
  flowing e := by
    obtain ⟨y, c, flowing⟩ := talking.flowing e
    obtain ⟨y', c', flowing', -⟩ := flowing.step can (steady_of_harmless harmless) taken
    exact ⟨y', c', flowing'⟩
  even e := by
    refine Carried.outcome (talking.even e) (talking.outcome can taken) fun m incomplete put _ => ?_
    cases a with
    | write k lock =>
      obtain ⟨rfl, -⟩ := put
      simp only [Pair.harmless, Bool.and_eq_true, Bool.not_eq_true'] at harmless
      simp [Msg.leaks, harmless.2]
    | terminate | sendDisconnectMsg => cases harmless
    | _ => cases put

theorem setHwms (inhwm outhwm : Int) : (s.setHwms e inhwm outhwm).Talking :=
  talking.step (a := .setHwms inhwm outhwm) (talking.can nofun) rfl rfl

theorem setHwmsBoost (inhwmboost outhwmboost : Int) :
    (s.setHwmsBoost e inhwmboost outhwmboost).Talking :=
  talking.step (a := .setHwmsBoost inhwmboost outhwmboost) (talking.can nofun) rfl rfl

theorem none_leaks {y : Ypipe Msg} {k : Nat}
    (here : s.queue e k = some (.normal y)) : ∀ m ∈ y.items, m.leaks = false :=
  fun m member => talking.even e _ _ _ here m member rfl

end

end Talking

theorem attached_talking (hwms : End → Int) : (attached hwms fun _ => false).Talking where
  flowing e := ⟨_, _, attached_flowing hwms e⟩
  even e := attached_even hwms e

end Pair

end Zmq
