import Zmq.Session.Basic

/-! # A session and its engines

The session with the engine attached to it, over connections that break and are made again.
What reaches the pair from the other side is what the socket does there. A connecting
session has its pipe from the start, a listening one gets it from its first engine.
-/

namespace Zmq

open Lib

/-- A session, and `_engine` if it is not null. -/
structure Linked (μ : Type) where
  session : Session μ
  engine : Option (Engine μ)

/-- Everything that can happen to them; `wire` is what the descriptor does meanwhile. -/
inductive LinkAction (μ : Type) where
  /-- A connecter or a listener has a new connection. -/
  | attach (hasHandshakeStage : Bool) (wire : Wire μ)
  /-- The poller, a timer or the ZAP pipe calls the engine. -/
  | engine (event : EngineEvent) (wire : Wire μ)
  /-- The oldest command for the session's end of the pipe. -/
  | deliver (wire : Wire μ)
  | processTerm (linger : Int) (wire : Wire μ)
  | lingerExpired (wire : Wire μ)
  /-- Something at the socket's end of the pipe. -/
  | socket (action : Action)

namespace Linked

variable {μ : Type} (mech : Mechanism μ)

/-- A session that is connecting, with its pipe, or that waits for an engine. -/
def start (options : SessionOptions) (hwms : End → Int) (conflate hasPipe : Bool) : Linked μ where
  session := { (Session.new options : Session μ) with
    pair := .attached hwms fun _ => conflate
    hasPipe := hasPipe }
  engine := none

variable (l : Linked μ)

def withSession (x : SessionM μ Unit) : Except Fault (Linked μ) := do
  let (_, s) ← x l.session
  .ok { l with session := s }

def withEngine (x : EngineM μ (Session μ) Unit) : Except Fault (Linked μ) :=
  match l.engine with
  | none => .ok l
  | some e => do
      let (_, p) ← x ⟨e, l.session, false⟩
      .ok ⟨p.world, if p.gone then none else some p.engine⟩

def withWire (wire : Wire μ) : Linked μ :=
  { l with session := { l.session with wire := wire } }

def processAttach (l : Linked μ) (hasHandshakeStage : Bool) : Except Fault (Linked μ) :=
  if l.engine.isSome then .error (.assertion .processAttach)
  else do
    let l ← l.withSession (onlyIf (!hasHandshakeStage) Session.engineReady)
    { l with engine := some (.new l.session.options.engine hasHandshakeStage) }.withEngine
      (Engine.plug Session.host mech)

/-- `session_base_t::pipe_terminated`. The request to terminate a raw session goes to its
    owner. -/
def pipeTerminated : Linked μ where
  engine := if !l.session.terminating && l.session.options.engine.rawSocket then none else l.engine
  session := { l.session with
    hasPipe := false
    hasLingerTimer := false
    pending := false
    terminating := l.session.terminating || l.session.pending }

/-- What the session does with an event of its pipe. -/
def told : Option Event → Except Fault (Linked μ)
  | some .readActivated =>
    match l.engine with
    | none => l.withSession Session.checkRead
    | some _ => l.withEngine (Engine.restartOutput Session.host mech)
  | some .writeActivated => l.withEngine do
      let _ ← Engine.restartInput Session.host mech
      pure ()
  | some .hiccuped => .error (.assertion .hiccuped)
  | some .pipeTerminated => .ok l.pipeTerminated
  | some (.statsPublish _ _) | none => .ok l

def deliver (l : Linked μ) : Except Fault (Linked μ) := do
  let (pair, event) ← l.session.pair.deliver .first
  { l with session := { l.session with pair := pair } }.told mech event

def step (l : Linked μ) : LinkAction μ → Except Fault (Linked μ)
  | .attach hasHandshakeStage wire => (l.withWire wire).processAttach mech hasHandshakeStage
  | .engine event wire => (l.withWire wire).withEngine (Engine.handle Session.host mech event)
  | .deliver wire => (l.withWire wire).deliver mech
  | .processTerm linger wire =>
    (l.withWire wire).withSession (Session.processTerm linger l.engine.isSome)
  | .lingerExpired wire => (l.withWire wire).withSession Session.lingerExpired
  | .socket action => do
      let pair ← l.session.pair.step (.second, action)
      .ok { l with session := { l.session with pair := pair } }

def shakesHands : Bool :=
  l.engine.any fun e => e.handshaking || e.processMsg == .processHandshakeCommand

/-- When it can happen. Engines come one at a time, the poller calls for a descriptor that
    it has and a timer that runs, the ZAP pipe speaks up in the handshake, and hiccups come
    from sessions. -/
def Possible : LinkAction μ → Prop
  | .attach _ _ => l.engine = none
  | .engine (.timerEvent id) _ => l.engine.any (·.timer id) = true
  | .engine .zapMsgAvailable _ => l.shakesHands = true
  | .engine .inEvent _ | .engine .outEvent _ => l.engine.any (·.polled) = true
  | .engine .restartInput _ | .engine .restartOutput _ => False
  | .deliver _ => l.session.hasPipe = true ∧ l.session.pair.mailbox .first ≠ []
  | .processTerm _ _ => l.session.pending = false ∧ l.session.terminating = false
  | .lingerExpired _ => l.session.hasLingerTimer = true
  | .socket action => l.session.hasPipe = true ∧ action ≠ .hiccup ∧
      l.session.pair.CanAct (.second, action)

instance (a : LinkAction μ) : Decidable (l.Possible a) := by
  cases a with
  | attach => exact decidable_of_iff (l.engine.isNone = true) Option.isNone_iff_eq_none
  | engine e => induction e using EngineEvent.casesOn <;> dsimp only [Possible] <;> infer_instance
  | _ => dsimp only [Possible]; infer_instance

end Linked

end Zmq
