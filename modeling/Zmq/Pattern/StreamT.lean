import Zmq.Mechanism.Basic

/-! # Raw connections

What a `stream_t` sends. Its user names a peer in a first frame and gives the data in a second one.
A first frame without MORE names nobody. It is ignored, but `xsend` takes the next frame for its
data, so that the frames of the following pairs change their places.
-/

namespace Zmq

open Lib Function

inductive PipeCall where
  | write (msg : Msg)
  | flush
  | terminate (delay : Bool)
  deriving Repr, DecidableEq

/-- `stream_t`, as far as it sends. -/
structure StreamT (ι : Type) where
  /-- `_out_pipes`: the pipe with a routing id, and whether it is active. -/
  outPipes : List UInt8 → Option (ι × Bool) := fun _ => none
  /-- `pipe_t::get_routing_id`. -/
  routingId : ι → List UInt8 := fun _ => []
  connectRoutingId : List UInt8 := []
  nextIntegralRoutingId : UInt32
  currentOut : Option ι := none
  moreOut : Bool := false
  calls : List (ι × PipeCall) := []

namespace StreamT

inductive Sent where
  | ok
  | eagain
  | ehostunreach
  deriving Repr, DecidableEq

variable {ι : Type} [DecidableEq ι] (s : StreamT ι)

/-- `pipe_t::check_write`. The pipes have room, but one that was told to terminate takes nothing. -/
def checkWrite (pipe : ι) : Bool := (pipe, .terminate false) ∉ s.calls

def addOutPipe (routingId : List UInt8) (pipe : ι) : Except Fault (StreamT ι) :=
  if s.outPipes routingId ≠ none then .error (.assertion .addOutPipe)
  else .ok { s with
    outPipes := update s.outPipes routingId (some (pipe, true))
    routingId := update s.routingId pipe routingId }

def identifyPeer (pipe : ι) (locallyInitiated : Bool) : Except Fault (StreamT ι) :=
  if locallyInitiated ∧ s.connectRoutingId ≠ [] then
    if s.outPipes s.connectRoutingId ≠ none then .error (.assertion .identifyPeer)
    else addOutPipe { s with connectRoutingId := [] } s.connectRoutingId pipe
  else
    addOutPipe { s with nextIntegralRoutingId := s.nextIntegralRoutingId + 1 }
      (0 :: putUint32 s.nextIntegralRoutingId.toNat) pipe

def xpipeTerminated (pipe : ι) : Except Fault (StreamT ι) :=
  if s.outPipes (s.routingId pipe) = none then .error (.assertion .eraseOutPipe)
  else .ok { s with
    outPipes := update s.outPipes (s.routingId pipe) none
    currentOut := if s.currentOut = some pipe then none else s.currentOut }

/-- The peer that a frame names, if its pipe takes messages. -/
def peer (msg : Msg) : Option ι := ((s.outPipes msg.data).map Prod.fst).filter s.checkWrite

/-- The data for a pipe: without MORE, and none of it ends the connection. -/
def handed (msg : Msg) (pipe : ι) : List (ι × PipeCall) :=
  if msg.size = 0 then [(pipe, .terminate false)]
  else [(pipe, .write { msg with flags := msg.flags &&& ~~~MsgFlag.more }), (pipe, .flush)]

def xsend (msg : Msg) : Except Fault (Sent × StreamT ι) :=
  if !s.moreOut then
    if s.currentOut ≠ none then .error (.assertion .streamXsend)
    else if msg.more then
      match s.outPipes msg.data with
      | none => .ok (.ehostunreach, s)
      | some (pipe, _) =>
        if s.checkWrite pipe then .ok (.ok, { s with currentOut := some pipe, moreOut := true })
        else .ok (.eagain, { s with outPipes := update s.outPipes msg.data (some (pipe, false)) })
    else .ok (.ok, { s with moreOut := true })
  else
    .ok (.ok, { s with
      moreOut := false
      currentOut := none
      calls := s.calls ++ s.currentOut.toList.flatMap (handed msg) })

variable {s}

theorem xsend_first {msg : Msg} (moreOut : s.moreOut = false) (idle : s.currentOut = none)
    (more : msg.more = true) : ∃ rc s', s.xsend msg = .ok (rc, s') ∧ s'.calls = s.calls ∧
      s'.currentOut = s.peer msg ∧ s'.moreOut = (s.peer msg).isSome ∧
      (rc = .ok ↔ (s.peer msg).isSome = true) := by
  simp only [xsend, peer, moreOut, idle, more]
  cases s.outPipes msg.data with
  | none => exact ⟨_, _, rfl, by simp [moreOut, idle]⟩
  | some entry =>
    by_cases takes : s.checkWrite entry.1 = true
    · exact ⟨_, _, if_pos takes, by simp [Option.filter, takes]⟩
    · exact ⟨_, _, if_neg takes, by simp [Option.filter, takes]⟩

end StreamT

/-- A `stream_t` and its user, who sends pairs and single frames. -/
structure Sender (ι : Type) where
  socket : StreamT ι
  /-- A frame that names a peer was accepted, and its data is not sent yet. -/
  waiting : Bool := false
  /-- The peer it named, as long as that one is attached. -/
  named : Option ι := none

namespace Sender

open StreamT

variable {ι : Type} [DecidableEq ι]

inductive Action (ι : Type) where
  | attach (pipe : ι) (locallyInitiated : Bool)
  | setConnectRoutingId (id : List UInt8)
  | terminated (pipe : ι)
  | send (msg : Msg)

def start (next : UInt32) : Sender ι where
  socket := { nextIntegralRoutingId := next }

variable (s : Sender ι)

def step : Action ι → Except Fault (Sender ι)
  | .attach pipe locallyInitiated => do
      let socket ← s.socket.identifyPeer pipe locallyInitiated
      .ok { s with socket := socket }
  | .setConnectRoutingId id =>
      .ok (if id = [] then s else { s with socket := { s.socket with connectRoutingId := id } })
  | .terminated pipe => do
      let socket ← s.socket.xpipeTerminated pipe
      .ok { s with socket := socket, named := if s.named = some pipe then none else s.named }
  | .send msg => do
      let (rc, socket) ← s.socket.xsend msg
      if s.waiting then .ok ⟨socket, false, none⟩
      else if msg.more ∧ rc = .ok then .ok ⟨socket, true, s.socket.peer msg⟩
      else .ok { s with socket := socket }

/-- What is to be done on the pipes: a second frame goes to the peer that the first one named. -/
def due : Action ι → List (ι × PipeCall)
  | .send msg => if s.waiting then s.named.toList.flatMap (handed msg) else []
  | _ => []

/-- No frame without MORE comes first. -/
def Paired : Action ι → Prop
  | .send msg => s.waiting = false → msg.more = true
  | _ => True

instance (a : Action ι) : Decidable (s.Paired a) := by
  cases a <;> unfold Paired <;> infer_instance

variable {s t : Sender ι} {a : Action ι}

/-- Socket and user agree on which frame comes next, and for whom. -/
structure Inv (s : Sender ι) : Prop where
  moreOut : s.socket.moreOut = s.waiting
  currentOut : s.socket.currentOut = s.named
  idle : s.waiting = false → s.named = none

theorem Inv.send {msg : Msg} (inv : s.Inv) (paired : s.Paired (.send msg)) :
    ∃ t, s.step (.send msg) = .ok t ∧ t.Inv ∧ t.socket.calls = s.socket.calls ++ s.due (.send msg) ∧
      (s.waiting = false → t.named = s.socket.peer msg ∧
        t.waiting = (s.socket.peer msg).isSome) := by
  obtain ⟨moreOut, currentOut, idle⟩ := inv
  cases waiting : s.waiting with
  | true =>
    rw [waiting] at moreOut
    refine ⟨⟨_, false, none⟩, by simp only [step, xsend, moreOut, waiting]; rfl, ?_⟩
    exact ⟨⟨rfl, rfl, fun _ => rfl⟩, by simp [due, waiting, currentOut], nofun⟩
  | false =>
    have more := paired waiting
    obtain ⟨rc, socket, sent, calls, current, expects, accepted⟩ :=
      xsend_first (moreOut.trans waiting) (currentOut.trans (idle waiting)) more
    have due : s.due (.send msg) = [] := by simp [due, waiting]
    cases named : s.socket.peer msg with
    | none =>
      have refused : rc ≠ .ok := by simp [accepted, named]
      rw [named] at current expects
      refine ⟨{ s with socket := socket }, ?_, ?_⟩
      · simp [step, sent, waiting, refused, bind, Except.bind]
      · exact ⟨⟨expects.trans waiting.symm, current.trans (idle waiting).symm, idle⟩,
          by simp [calls, due], fun _ => ⟨idle waiting, waiting⟩⟩
    | some p =>
      have ok : rc = .ok := by simp [accepted, named]
      rw [named] at current expects
      refine ⟨⟨socket, true, s.socket.peer msg⟩, ?_, ?_⟩
      · simp [step, sent, waiting, more, ok, bind, Except.bind]
      · exact ⟨⟨expects, current.trans named.symm, nofun⟩, by simp [calls, due],
          fun _ => ⟨named, rfl⟩⟩

theorem Inv.step (inv : s.Inv) (paired : s.Paired a) (done : s.step a = .ok t) :
    t.Inv ∧ t.socket.calls = s.socket.calls ++ s.due a := by
  cases a with
  | attach pipe locallyInitiated =>
    obtain ⟨socket, attached, rfl⟩ := bind_return.mp done
    simp only [identifyPeer, addOutPipe] at attached
    split_ifs at attached <;> cases attached <;> exact ⟨{ inv with }, by simp [due]⟩
  | setConnectRoutingId id =>
    cases done
    split <;> exact ⟨{ inv with }, by simp [due]⟩
  | terminated pipe =>
    obtain ⟨socket, terminated, rfl⟩ := bind_return.mp done
    unfold xpipeTerminated at terminated
    split at terminated
    · cases terminated
    · cases terminated
      refine ⟨⟨inv.moreOut, by simp [inv.currentOut], fun waiting => ?_⟩, by simp [due]⟩
      simp [inv.idle waiting]
  | send msg =>
    obtain ⟨t', sends, inv', calls, -⟩ := inv.send paired
    cases sends.symm.trans done
    exact ⟨inv', calls⟩

/-- As long as no frame without MORE comes first, the second frame of a pair goes to the peer that
    the first one named and to nobody else, and every frame is answered. -/
theorem pairs_go_to_named (next : UInt32) (reached : Reaches Sender.step Paired (start next) s)
    (a : Action ι) (paired : s.Paired a) :
    (∀ t, s.step a = .ok t → t.socket.calls = s.socket.calls ++ s.due a) ∧
    ∀ msg, a = .send msg → ∃ t, s.step a = .ok t ∧ (s.waiting = false →
      t.named = s.socket.peer msg ∧ t.waiting = (s.socket.peer msg).isSome) := by
  have inv : s.Inv := reached.invariant ⟨rfl, rfl, fun _ => rfl⟩
    fun s a t inv paired done => (inv.step paired done).1
  refine ⟨fun t done => (inv.step paired done).2, ?_⟩
  rintro msg rfl
  obtain ⟨t, sends, -, -, answer⟩ := inv.send paired
  exact ⟨t, sends, answer⟩

/-- The first peer that is attached, and data for it. -/
private def toFirst : Msg := { data := [0, 0, 0, 0, 0], flags := MsgFlag.more }
private def seven : Msg := { data := [7] }

theorem pairs_go_to_named_once : ∃ s : Sender (Fin 2), Reaches Sender.step Paired (start 0) s ∧
    s.due (.send seven) = [(0, .write seven), (0, .flush)] ∧ s.Paired (.send seven) ∧
    ∀ t, s.step (.send seven) = .ok t → t.socket.calls = s.socket.calls ++ s.due (.send seven) :=
  exists_run_and₂ [.attach 0 false, .attach 1 false, .send toFirst] (by decide +kernel)
    fun _ reached _ paired => (pairs_go_to_named 0 reached _ paired).1

/-- After a single frame the data of a pair is not sent, although its peer is attached. -/
theorem single_frame_shifts_pairs : ∃ s : Sender (Fin 2),
    Reaches Sender.step (fun _ _ => True) (start 0) s ∧
    s.due (.send seven) = [(0, .write seven), (0, .flush)] ∧
    (s.step (.send seven)).toOption.map (·.socket.calls) = some [] :=
  exists_reaches _ _ _ [.attach 0 false, .send {}, .send toFirst] _ (by decide +kernel)

end Sender

end Zmq
