import Zmq.Mechanism.Authentication

/-! # The ZAP pipe of a session

The ZAP pipe belongs to the session and is kept when a connection is lost and made again, and
each connection gets a mechanism of its own. The handler answers the requests in their order,
and a reply is on its way for as long as it takes. Requests carry the number of the mechanism
that sent them; the frames do not show it, every request has the id 1.

The pipe wakes the session up only if it was found empty before.
-/

namespace Zmq

open Lib

structure Answer where
  code : List UInt8
  text : List UInt8 := []
  user : List UInt8 := []
  metadata : List UInt8 := []
  deriving Repr, DecidableEq

def Answer.frames (a : Answer) : List Msg := replyFrames a.code a.text a.user a.metadata

/-- A connecting session: its ZAP pipe, and the engine with its mechanism, which is there once
    the greeting is over. -/
structure ZapSession (M : Type) where
  zap : ZapPipe
  engine : Option (Option M) := none
  /-- An engine has failed with a protocol error, which is the end of the session. -/
  terminating : Bool := false
  number : Nat := 0
  /-- Requests that the handler has not answered, by the mechanism that sent them. -/
  requests : List Nat := []
  /-- Replies on their way, and all the answers that were given. -/
  replies : List (Nat × Answer) := []
  given : List (Nat × Answer) := []

inductive ZapAction (P : Type) where
  | attach
  /-- The greeting of the peer is complete and a mechanism is made. -/
  | greeted (parameters : P)
  | next (random : List UInt8)
  | process (m : Msg)
  | lost
  | answer (a : Answer)
  | deliver

namespace ZapSession

variable {M P : Type} (mech : ZapMechanism M)

def start (handler recvRoutingId : Bool) : ZapSession M where
  zap := { handler := handler, recvRoutingId := recvRoutingId }

/-- How many requests a sequence of frames ends; the routing id is not one. -/
def ends (frames : List Msg) : Nat := frames.countP fun m => !m.more && !m.isRoutingId

def call {α : Type} (s : ZapSession M) (m : M) (x : MechanismM M α) :
    Except Fault (α × ZapSession M) := do
  let (a, m, z) ← x (m, s.zap)
  .ok (a, { s with
    zap := z
    engine := some (some m)
    requests := s.requests ++
      List.replicate (ends z.outbound - ends s.zap.outbound) s.number })

variable (s : ZapSession M)

def protocolError : ZapSession M :=
  { s with engine := none, terminating := true, zap := s.zap.checkRead }

def callOrFail (rc : Rc) : ZapSession M :=
  if rc = .failed then s.protocolError else s

def zapMsgAvailable (s : ZapSession M) : Option M → Except Fault (ZapSession M)
  | none => .error (.assertion .zapMsgAvailable)
  | some m => do
      let (rc, s) ← s.call m mech.zapMsgAvailable
      .ok (s.callOrFail rc)

/-- `session_base_t::read_activated` for the ZAP pipe. -/
def readActivated : Except Fault (ZapSession M) :=
  match s.engine with
  | none => .ok s
  | some m => s.zapMsgAvailable mech m

def step (make : P → Except Fault M) (s : ZapSession M) :
    ZapAction P → Except Fault (ZapSession M)
  | .attach => .ok { s with engine := some none }
  | .greeted p => do
      let m ← make p
      .ok { s with engine := some (some m), number := s.number + 1 }
  | .next random =>
    match s.engine with
    | some (some m) => do
        let (_, s) ← s.call m (mech.nextHandshakeCommand random)
        .ok s
    | _ => .ok s
  | .process m =>
    match s.engine with
    | some (some k) => do
        let ((rc, _), s) ← s.call k (mech.processHandshakeCommand m)
        .ok (s.callOrFail rc)
    | _ => .ok s
  | .lost => .ok { s with engine := none, zap := s.zap.checkRead }
  | .answer a =>
    match s.requests with
    | [] => .ok s
    | i :: rest => .ok { s with
        requests := rest
        replies := s.replies ++ [(i, a)]
        given := s.given ++ [(i, a)] }
  | .deliver =>
    match s.replies with
    | [] => .ok s
    | (_, a) :: rest =>
      let woken := { s with replies := rest, zap := s.zap.arrive a.frames }
      if s.zap.inActive then .ok woken else woken.readActivated mech

def Possible : ZapAction P → Prop
  | .attach => s.engine.isNone = true ∧ s.terminating = false
  | .greeted _ => s.engine.any Option.isNone = true
  | .next _ | .process _ => s.engine.any Option.isSome = true
  | .lost => s.engine.isSome = true
  | .answer _ => s.requests ≠ []
  | .deliver => s.replies ≠ [] ∧ s.zap.attached = true

instance (a : ZapAction P) : Decidable (s.Possible a) := by
  cases a <;> dsimp only [Possible] <;> infer_instance

/-- The connection is not lost between a request and the reading of its reply. -/
def Patient : ZapAction P → Prop
  | .lost => s.requests = [] ∧ s.replies = [] ∧ s.zap.inbound = []
  | _ => True

instance (a : ZapAction P) : Decidable (s.Patient a) := by
  cases a <;> dsimp only [Patient] <;> infer_instance

/-- The mechanism acts on a status code that was given for its own request. -/
def OwnCode (code : M → List UInt8) (s : ZapSession M) : Prop :=
  ∀ m, s.engine = some (some m) → code m ≠ [] → ∃ a, (s.number, a) ∈ s.given ∧ a.code = code m

end ZapSession

/-! ## Whole replies -/

structure Whole (answers : List Answer) (z : ZapPipe) : Prop where
  inbound : z.inbound = answers.flatMap Answer.frames
  unattached : z.attached = false → answers = []

def Heard (answers : List Answer) (code code' : List UInt8) (z : ZapPipe) : Prop :=
  ∃ rest, Whole rest z ∧ (rest = answers ∧ code' = code ∨
    ∃ a, answers = a :: rest ∧ (code' = code ∨ code' = a.code))

section Replies

variable {answers : List Answer} {z z' : ZapPipe} {code : List UInt8}

theorem Heard.nothing (whole : Whole answers z) : Heard answers code code z :=
  ⟨answers, whole, .inl ⟨rfl, rfl⟩⟩

theorem Answer.frames_marks (a : Answer) : a.frames.map Msg.more = ZapPipe.marks 7 := by
  simp [Answer.frames, replyFrames, Msg.initSize, Msg.more, MsgFlag.more, ZapPipe.marks]

theorem ZapPipe.readReply_frames {n : Nat} {frames rest : List Msg} (attached : z.attached = true)
    (inbound : z.inbound = frames ++ rest) (marked : frames.map Msg.more = marks n) :
    z.readReply n = ((.ok, frames), { z with inbound := rest }) := by
  induction n generalizing z frames with
  | zero =>
    obtain rfl : frames = [] := List.map_eq_nil_iff.mp marked
    rw [List.nil_append] at inbound
    simp [readReply, ← inbound]
  | succ n ih =>
    cases frames with
    | nil => cases marked
    | cons m frames =>
      simp only [List.map_cons, marks, List.cons.injEq] at marked
      have read : z.readZapMsg = ((.ok, m), { z with inbound := frames ++ rest }) := by
        simp [readZapMsg, attached, inbound]
      have others := ih (z := { z with inbound := frames ++ rest }) attached rfl marked.2
      simp [readReply, read, marked.1, others]

theorem Whole.connected (whole : Whole answers z) (connect : z.zapConnect = (true, z')) :
    Whole answers z' := by
  unfold ZapPipe.zapConnect at connect
  split at connect
  · cases connect
    exact whole
  · rename_i unattached
    obtain rfl := whole.unattached (by simpa using unattached)
    split at connect
    · cases connect
      exact ⟨rfl, fun _ => rfl⟩
    · cases connect

theorem Whole.sent (whole : Whole answers z) (c : ZapClient) (mechanism : List UInt8)
    (credentials : List (List UInt8)) : Whole answers (c.sendZapRequest mechanism credentials z) :=
  ⟨whole.inbound, whole.unattached⟩

theorem ZapClient.processReply_code (c : ZapClient) (a : Answer) :
    (c.processReply a.frames).2.statusCode = c.statusCode ∨
      (c.processReply a.frames).2.statusCode = a.code := by
  simp only [Answer.frames, replyFrames, List.map_cons, List.map_nil, List.cons_append,
    List.nil_append, processReply]
  split
  · exact .inr rfl
  · exact .inl rfl

theorem ZapClient.receive_heard {c c' : ZapClient} {rc : Rc} (whole : Whole answers z)
    (run : c.receiveAndProcessZapReply z = (rc, c', z')) :
    Heard answers c.statusCode c'.statusCode z' := by
  cases there : z.attached with
  | false =>
    have read : z.readReply 7 = ((.failed, []), z) := by
      simp [ZapPipe.readReply, ZapPipe.readZapMsg, there]
    simp only [receiveAndProcessZapReply, read] at run
    cases run
    exact .nothing whole
  | true =>
    cases answers with
    | nil =>
      have read : z.readReply 7 = ((.again, []), { z with inActive := false }) := by
        have empty : z.inbound = [] := whole.inbound
        simp [ZapPipe.readReply, ZapPipe.readZapMsg, there, empty]
      simp only [receiveAndProcessZapReply, read] at run
      cases run
      exact .nothing ⟨whole.inbound, whole.unattached⟩
    | cons a rest =>
      have read := ZapPipe.readReply_frames there whole.inbound a.frames_marks
      have code := c.processReply_code a
      rcases processed : c.processReply a.frames with ⟨well, c₁⟩
      rw [processed] at code
      simp only [receiveAndProcessZapReply, read, processed] at run
      refine ⟨rest, ?_, .inr ⟨a, rfl, ?_⟩⟩
      · cases well <;> cases run <;> exact ⟨rfl, by simp [there]⟩
      · cases well <;> cases run <;> exact code

end Replies

/-- The failures of mechanisms are not those of the engine. -/
def Elsewhere (e : Fault) : Prop := e ≠ .assertion .zapMsgAvailable

/-- All the calls on a mechanism read whole replies. -/
structure Honest {M : Type} (mech : ZapMechanism M) (code : M → List UInt8) : Prop where
  next : ∀ random k answers, Whole answers k.2 → wp Elsewhere
    (mech.nextHandshakeCommand random)
    (fun _ k' => Heard answers (code k.1) (code k'.1) k'.2) k
  process : ∀ m k answers, Whole answers k.2 → wp Elsewhere
    (mech.processHandshakeCommand m) (fun _ k' => Heard answers (code k.1) (code k'.1) k'.2) k
  zap : ∀ k answers, Whole answers k.2 → wp Elsewhere mech.zapMsgAvailable
    (fun _ k' => Heard answers (code k.1) (code k'.1) k'.2) k

namespace CommonHandshake

theorem handleZapStatusCode_statusCode (h : CommonHandshake) :
    h.handleZapStatusCode.statusCode = h.statusCode := by
  unfold handleZapStatusCode
  split <;> rfl

theorem wp_receive_heard {answers : List Answer} {h : CommonHandshake} {z : ZapPipe}
    (whole : Whole answers z) :
    wp Elsewhere receiveAndProcessZapReply
      (fun _ k => Heard answers h.statusCode k.1.statusCode k.2) (h, z) := by
  simp only [receiveAndProcessZapReply, wp_bind]
  refine wp_assert (fun _ => nofun) fun _ => ?_
  rcases run : h.toZapClient.receiveAndProcessZapReply z with ⟨rc, c, z'⟩
  have heard := ZapClient.receive_heard whole run
  simp only [wp_set, wp_pure]
  split
  · rw [handleZapStatusCode_statusCode]
    exact heard
  · exact heard

end CommonHandshake

theorem PlainServer.honest : Honest .plain (·.statusCode) where
  next random k answers whole := by
    simp only [ZapMechanism.plain, nextHandshakeCommand, wp_bind, wp_get]
    cases k.1.state with
    | sendingError =>
      simp only [CommonHandshake.produceError, wp_bind]
      exact wp_assert (fun _ => (by rintro ⟨⟩)) fun _ => .nothing whole
    | _ => exact .nothing whole
  process m k answers whole := by
    simp only [ZapMechanism.plain, processHandshakeCommand, consumed, wp_bind, wp_get]
    cases k.1.state with
    | waitingForHello =>
      dsimp only
      unfold processHello
      split
      · exact .nothing whole
      · simp only [wp_bind, wp_get]
        rcases connect : k.2.zapConnect with ⟨connected, z⟩
        refine wp_ite (fun yes => ?_) fun _ => .nothing whole
        obtain rfl : connected = true := yes
        have whole := whole.connected connect
        rw [wp_bind, wp_set, wp_bind]
        refine wp_mono (CommonHandshake.wp_receive_heard (whole.sent ..)) fun rc k' heard => ?_
        exact heard
    | waitingForInitiate => exact wp_ite (fun _ => .nothing whole) fun _ => .nothing whole
    | _ =>
      exact .nothing whole
  zap k answers whole := by
    simp only [ZapMechanism.plain, CommonHandshake.zapMsgAvailable, wp_bind]
    exact CommonHandshake.wp_receive_heard whole

namespace NullMechanism

variable {answers : List Answer} {n n' : NullMechanism} {z z' : ZapPipe} {rc : Rc}

theorem receiveReply_heard (whole : Whole answers z) (run : n.receiveReply z = (rc, n', z')) :
    Heard answers n.statusCode n'.statusCode z' := by
  rcases received : n.receiveAndProcessZapReply z with ⟨rc', c, u⟩
  have heard := ZapClient.receive_heard whole received
  simp only [receiveReply, received] at run
  cases run
  exact heard

theorem nextHandshakeCommand_heard (whole : Whole answers z) :
    Heard answers n.statusCode (n.nextHandshakeCommand z).2.1.statusCode
      (n.nextHandshakeCommand z).2.2 := by
  have same (n : NullMechanism) : n.produceCommand.2.statusCode = n.statusCode :=
    (produceCommand_frame n).2
  unfold nextHandshakeCommand
  split
  · exact .nothing whole
  · split
    · split
      · exact .nothing whole
      · split
        · rename_i z₁ connect
          have whole := (whole.connected connect).sent n.toZapClient [78, 85, 76, 76] []
          dsimp only
          split
          · rename_i run
            have heard := receiveReply_heard whole run
            rw [same]
            exact heard
          · rename_i run
            have heard := receiveReply_heard whole run
            exact heard
        · rename_i z₁ connect
          obtain ⟨rfl, -⟩ := ZapPipe.zapConnect_refused connect
          split
          · exact .nothing whole
          · rw [same]
            exact .nothing whole
    · rw [same]
      exact .nothing whole

theorem honest : Honest .null (·.statusCode) where
  next random k answers whole := nextHandshakeCommand_heard whole
  process m k answers whole := by
    have same := (processHandshakeCommand_frame k.1 m).2.2.2
    simp only [ZapMechanism.null, wp]
    rw [same]
    exact .nothing whole
  zap k answers whole := by
    simp only [ZapMechanism.null, wp]
    unfold zapMsgAvailable
    split
    · exact .nothing whole
    · rcases run : k.1.receiveReply k.2 with ⟨rc, n, z⟩
      have heard := receiveReply_heard whole run
      cases rc <;> exact heard

end NullMechanism

namespace CurveServer

variable {box : Box} {answers : List Answer} {k : CurveServer × ZapPipe}

theorem wp_common_heard {s : CurveServer} {z : ZapPipe} (whole : Whole answers z) :
    wp Elsewhere (common CommonHandshake.receiveAndProcessZapReply)
      (fun _ k' => Heard answers s.statusCode k'.1.statusCode k'.2) (s, z) := by
  rw [common, wp_zoom]
  exact CommonHandshake.wp_receive_heard whole

theorem wp_authenticate_heard {clientKey metadata : List UInt8} (whole : Whole answers k.2) :
    wp Elsewhere (authenticate clientKey metadata)
      (fun _ k' => Heard answers k.1.statusCode k'.1.statusCode k'.2) k := by
  have parse {k' : CurveServer × ZapPipe}
      (heard : Heard answers k.1.statusCode k'.1.statusCode k'.2) :
      wp Elsewhere (parseInitiate metadata)
        (fun _ k' => Heard answers k.1.statusCode k'.1.statusCode k'.2) k' := by
    exact heard
  simp only [authenticate]
  refine wp_ite (fun _ => ?_) fun _ => parse (.nothing whole)
  rcases connect : k.2.zapConnect with ⟨connected, z⟩
  refine wp_ite (fun yes => ?_) fun no => ?_
  · obtain rfl : connected = true := yes
    have whole := whole.connected connect
    simp only [wp_bind, wp_set]
    apply wp_mono (wp_common_heard (whole.sent ..))
    intro rc k' heard
    exact wp_ite (fun _ => heard) fun _ => parse heard
  · exact wp_ite (fun _ => parse (.nothing whole)) fun _ => .nothing whole

theorem honest : Honest (.curve box) (·.statusCode) where
  next random k answers whole := by
    simp only [ZapMechanism.curve, nextHandshakeCommand, wp_bind, wp_get]
    have proceeds {state : HandshakeState} {x : MechanismM CurveServer (Rc × Msg)}
        (still : wp Elsewhere x
          (fun _ k' => Heard answers k.1.statusCode k'.1.statusCode k'.2) k) :
        wp Elsewhere (proceed state x)
          (fun _ k' => Heard answers k.1.statusCode k'.1.statusCode k'.2) k := by
      simp only [proceed, wp_bind]
      apply wp_mono still
      intro made k' heard
      exact wp_ite (fun _ => heard) fun _ => heard
    cases k.1.state with
    | sendingWelcome =>
      apply proceeds
      simp only [produceWelcome, update, wp_bind, wp_get, wp_modify]
      split <;> exact .nothing whole
    | sendingError =>
      apply proceeds
      simp only [common, CommonHandshake.produceError, wp_zoom, wp_bind]
      exact wp_assert (fun _ => (by rintro ⟨⟩)) fun _ => .nothing whole
    | _ =>
      exact .nothing whole
  process m k answers whole := by
    simp only [ZapMechanism.curve, processHandshakeCommand, consumed, wp_bind, wp_get]
    cases k.1.state with
    | waitingForHello =>
      refine wp_ite (fun _ => .nothing whole) fun _ => ?_
      simp only [update, wp_bind, wp_get, wp_modify]
      split <;> exact .nothing whole
    | waitingForInitiate =>
      simp only [processInitiate, update]
      refine wp_ite (fun _ => .nothing whole) fun _ => ?_
      refine wp_ite (fun _ => .nothing whole) fun _ => ?_
      split
      · exact .nothing whole
      · split
        · exact (wp_throw _).mpr (by rintro ⟨⟩)
        · simp only [wp_bind, wp_modify]
          refine wp_mono (wp_authenticate_heard ?_) fun rc k' heard => heard
          exact whole
    | _ =>
      exact .nothing whole
  zap k answers whole := by
    simp only [ZapMechanism.curve, common, CommonHandshake.zapMsgAvailable, wp_zoom, wp_bind]
    exact CommonHandshake.wp_receive_heard whole

end CurveServer

/-! ## One connection after the other -/

namespace ZapSession

variable {M P : Type} {mech : ZapMechanism M} {code : M → List UInt8}
  {make : P → Except Fault M} {s t : ZapSession M} {m : M} {a : ZapAction P} {z : ZapPipe}
  {α : Type} {i : Nat}

/-- A mechanism reads whole replies, and has no status code when it is made. -/
structure Served (mech : ZapMechanism M) (make : P → Except Fault M) (code : M → List UInt8) :
    Prop where
  honest : Honest mech code
  silent : ∀ p m, make p = .ok m → code m = []
  elsewhere : ∀ p e, make p = .error e → Elsewhere e

def Quiet (s : ZapSession M) : Prop := s.requests = [] ∧ s.replies = [] ∧ s.zap.inbound = []

/-- Whatever is on its way belongs to the present mechanism. -/
structure Inv (code : M → List UInt8) (s : ZapSession M) : Prop where
  requests : ∀ i ∈ s.requests, i = s.number
  replies : ∀ r ∈ s.replies, r.1 = s.number ∧ r ∈ s.given
  whole : ∃ answers, Whole answers s.zap ∧ ∀ a ∈ answers, (s.number, a) ∈ s.given
  own : s.OwnCode code
  busy : s.Quiet ∨ (s.terminating = true ∧ s.engine = none) ∨ ∃ m, s.engine = some (some m)

theorem Whole.checkRead {answers : List Answer} (whole : Whole answers z) :
    Whole answers z.checkRead := by
  unfold ZapPipe.checkRead
  split
  · exact ⟨whole.inbound, whole.unattached⟩
  · exact whole

theorem checkRead_inbound (z : ZapPipe) : z.checkRead.inbound = z.inbound := by
  unfold ZapPipe.checkRead
  split <;> rfl

theorem Inv.call {x : MechanismM M α} {a : α} (inv : s.Inv code) (engine : s.engine = some (some m))
    (honest : ∀ answers, Whole answers s.zap → wp Elsewhere x
      (fun _ k => Heard answers (code m) (code k.1) k.2) (m, s.zap))
    (run : s.call m x = .ok (a, t)) : t.Inv code := by
  obtain ⟨answers, whole, given⟩ := inv.whole
  obtain ⟨⟨b, m', z⟩, called, same⟩ := bind_ok.mp run
  obtain ⟨rest, whole', heard⟩ := wp_ok (honest answers whole) called
  cases same
  have subset : ∀ a ∈ rest, (s.number, a) ∈ s.given := by
    intro a member
    rcases heard with ⟨rfl, -⟩ | ⟨b, rfl, -⟩
    · exact given a member
    · exact given a (List.mem_cons_of_mem _ member)
  refine ⟨?_, inv.replies, ⟨rest, whole', subset⟩, ?_, .inr (.inr ⟨m', rfl⟩)⟩
  · refine List.forall_mem_append.mpr ⟨inv.requests, fun i new => ?_⟩
    exact (List.mem_replicate.mp new).2
  · intro m₁ engine' set
    cases engine'
    rcases heard with ⟨-, same⟩ | ⟨b, rfl, same | acted⟩
    · rw [same] at set ⊢
      exact inv.own m engine set
    · rw [same] at set ⊢
      exact inv.own m engine set
    · exact ⟨b, given b (by simp), acted.symm⟩

theorem Inv.protocolError (inv : s.Inv code) : s.protocolError.Inv code := by
  obtain ⟨answers, whole, given⟩ := inv.whole
  exact ⟨inv.requests, inv.replies, ⟨answers, Whole.checkRead whole, given⟩, nofun,
    .inr (.inl ⟨rfl, rfl⟩)⟩

theorem Inv.callOrFail (inv : s.Inv code) (rc : Rc) : (s.callOrFail rc).Inv code := by
  unfold ZapSession.callOrFail
  split
  · exact inv.protocolError
  · exact inv

theorem Inv.quiet (inv : s.Inv code) (idle : ∀ m, s.engine ≠ some (some m))
    (goes : s.engine = none → s.terminating = false) : s.Quiet := by
  rcases inv.busy with quiet | ⟨terminating, gone⟩ | ⟨m, engine⟩
  · exact quiet
  · exact absurd terminating (by simp [goes gone])
  · exact absurd engine (idle m)

theorem Quiet.restart (quiet : s.Quiet) {engine : Option (Option M)} {number : Nat}
    (inbound : z.inbound = s.zap.inbound) (silent : ∀ m, engine = some (some m) → code m = []) :
    Inv code { s with engine := engine, zap := z, number := number } := by
  obtain ⟨requests, replies, empty⟩ := quiet
  refine ⟨by simp [requests], by simp [replies], ⟨[], ⟨inbound.trans empty, fun _ => rfl⟩, nofun⟩,
    fun m there set => absurd (silent m there) set, .inl ⟨requests, replies, inbound.trans empty⟩⟩

theorem Inv.answer (inv : s.Inv code) {rest : List Nat} (a : Answer)
    (oldest : s.requests = i :: rest) :
    Inv code { s with
      requests := rest
      replies := s.replies ++ [(i, a)]
      given := s.given ++ [(i, a)] } := by
  obtain ⟨answers, whole, given⟩ := inv.whole
  have number : i = s.number := inv.requests i (by simp [oldest])
  refine ⟨?_, ?_, ⟨answers, whole, fun b member => ?_⟩, ?_, ?_⟩
  · intro j member
    exact inv.requests j (by simp [oldest, member])
  · refine forall_mem_concat (fun r old => ?_) ⟨number, by simp⟩
    exact ⟨(inv.replies r old).1, List.mem_append_left _ (inv.replies r old).2⟩
  · exact List.mem_append_left _ (given b member)
  · intro m engine set
    obtain ⟨b, member, acted⟩ := inv.own m engine set
    exact ⟨b, List.mem_append_left _ member, acted⟩
  · rcases inv.busy with quiet | other
    · exact absurd quiet.1 (by simp [oldest])
    · exact .inr other

theorem Inv.arrive (inv : s.Inv code) {a : Answer} {rest : List (Nat × Answer)}
    (oldest : s.replies = (i, a) :: rest) (attached : s.zap.attached = true) :
    Inv code { s with replies := rest, zap := s.zap.arrive a.frames } := by
  obtain ⟨answers, whole, given⟩ := inv.whole
  obtain ⟨number, member⟩ := inv.replies (i, a) (by simp [oldest])
  obtain rfl : i = s.number := number
  refine ⟨inv.requests, ?_, ⟨answers ++ [a], ⟨?_, ?_⟩, ?_⟩, inv.own, ?_⟩
  · intro r other
    exact inv.replies r (by simp [oldest, other])
  · simp [ZapPipe.arrive, whole.inbound]
  · intro unattached
    exact absurd attached (by simpa [ZapPipe.arrive] using unattached)
  · exact forall_mem_concat given member
  · rcases inv.busy with quiet | other
    · exact absurd quiet.2.1 (by simp [oldest])
    · exact .inr other

theorem Inv.zapMsgAvailable (honest : Honest mech code) (inv : s.Inv code)
    (engine : s.engine = some (some m)) (taken : s.zapMsgAvailable mech (some m) = .ok t) :
    t.Inv code := by
  obtain ⟨⟨rc, u⟩, run, ⟨⟩⟩ := bind_ok.mp taken
  exact (inv.call engine (honest.zap (m, s.zap)) run).callOrFail rc

theorem Inv.deliver (honest : Honest mech code) (inv : s.Inv code)
    (attached : s.zap.attached = true) (taken : s.step mech make .deliver = .ok t) : t.Inv code := by
  simp only [ZapSession.step] at taken
  split at taken
  · cases taken
    exact inv
  · rename_i i a rest oldest
    have arrived := inv.arrive oldest attached
    split at taken
    · cases taken
      exact arrived
    · unfold readActivated at taken
      split at taken
      · cases taken
        exact arrived
      · rename_i engine there
        cases engine with
        | none => cases taken
        | some m => exact arrived.zapMsgAvailable honest there taken

theorem Inv.step (served : Served mech make code) (inv : s.Inv code) (possible : s.Possible a)
    (patient : s.Patient a) (taken : s.step mech make a = .ok t) : t.Inv code := by
  cases a with
  | attach =>
    cases taken
    obtain ⟨gone, stays⟩ := possible
    have none : s.engine = none := by simpa using gone
    have quiet := inv.quiet (by simp [none]) fun _ => stays
    exact quiet.restart rfl (by simp)
  | greeted p =>
    have there : s.engine = some none := by
      cases engine : s.engine with
      | none => simp [Possible, engine] at possible
      | some k => simpa [Possible, engine] using possible
    have quiet := inv.quiet (by simp [there]) (by simp [there])
    obtain ⟨m, made, ⟨⟩⟩ := bind_ok.mp taken
    apply quiet.restart rfl
    intro m' same
    cases same
    exact served.silent p m made
  | next random =>
    simp only [ZapSession.step] at taken
    split at taken
    · rename_i m engine
      obtain ⟨⟨rc, u⟩, run, ⟨⟩⟩ := bind_ok.mp taken
      exact inv.call engine (served.honest.next random (m, s.zap)) run
    · cases taken
      exact inv
  | process msg =>
    simp only [ZapSession.step] at taken
    split at taken
    · rename_i m engine
      obtain ⟨⟨⟨rc, r⟩, u⟩, run, ⟨⟩⟩ := bind_ok.mp taken
      exact (inv.call engine (served.honest.process msg (m, s.zap)) run).callOrFail rc
    · cases taken
      exact inv
  | lost =>
    cases taken
    exact Quiet.restart patient (checkRead_inbound _) (by simp)
  | answer a =>
    simp only [ZapSession.step] at taken
    split at taken
    · cases taken
      exact inv
    · rename_i i rest oldest
      cases taken
      exact inv.answer a oldest
  | deliver => exact inv.deliver served.honest possible.2 taken

theorem Inv.call_elsewhere {β : Type} {x : MechanismM M α} {k : α × ZapSession M → Except Fault β}
    (inv : s.Inv code) (fine : ∀ r, k r ≠ .error (.assertion .zapMsgAvailable))
    (honest : ∀ answers, Whole answers s.zap → wp Elsewhere x
      (fun _ k => Heard answers (code m) (code k.1) k.2) (m, s.zap)) :
    (s.call m x >>= k) ≠ .error (.assertion .zapMsgAvailable) := by
  obtain ⟨answers, whole, -⟩ := inv.whole
  intro failed
  cases called : x (m, s.zap) with
  | error e =>
    simp only [ZapSession.call, called] at failed
    cases failed
    exact wp_error (honest answers whole) called rfl
  | ok r =>
    simp only [ZapSession.call, called] at failed
    exact fine _ failed

theorem Inv.elsewhere (served : Served mech make code) (inv : s.Inv code)
    (possible : s.Possible a) : s.step mech make a ≠ .error (.assertion .zapMsgAvailable) := by
  cases a with
  | attach | lost => simp [ZapSession.step]
  | greeted p =>
    intro failed
    cases made : make p with
    | error e =>
      simp only [ZapSession.step, made] at failed
      cases failed
      exact served.elsewhere p _ made rfl
    | ok m => simp [ZapSession.step, made] at failed
  | next random =>
    simp only [ZapSession.step]
    split
    · exact inv.call_elsewhere (by simp) (served.honest.next random (_, s.zap))
    · simp
  | process msg =>
    simp only [ZapSession.step]
    split
    · exact inv.call_elsewhere (by simp) (served.honest.process msg (_, s.zap))
    · simp
  | answer a =>
    simp only [ZapSession.step]
    split <;> simp
  | deliver =>
    simp only [ZapSession.step]
    split
    · simp
    · rename_i i a rest oldest
      have arrived := inv.arrive oldest possible.2
      split
      · simp
      · rcases inv.busy with quiet | ⟨-, gone⟩ | ⟨m, engine⟩
        · exact absurd quiet.2.1 (by simp [oldest])
        · simp [readActivated, gone]
        · simp only [engine]
          exact arrived.call_elsewhere (by simp) (served.honest.zap (m, _))

theorem codes_are_own (served : Served mech make code) {handler recvRoutingId : Bool}
    (reached : Reaches (ZapSession.step mech make) (fun s a => s.Possible a ∧ s.Patient a)
      (start handler recvRoutingId) s) :
    s.OwnCode code ∧ ∀ a, s.Possible a →
      s.step mech make a ≠ .error (.assertion .zapMsgAvailable) := by
  have inv : s.Inv code := by
    apply reached.invariant
    · exact ⟨nofun, nofun, ⟨[], ⟨rfl, fun _ => rfl⟩, nofun⟩, nofun, .inl ⟨rfl, rfl, rfl⟩⟩
    · intro s a t inv allowed taken
      exact inv.step served allowed.1 allowed.2 taken
  exact ⟨inv.own, fun a possible => inv.elsewhere served possible⟩

end ZapSession

/-! ## The mechanisms of a connecting session -/

variable (options : MechanismOptions)

def makeNull (peerAddress : List UInt8) : Except Fault NullMechanism :=
  .ok (.new options peerAddress)

def makeCurve (downgradeSub : Bool)
    (p : List UInt8 × ServerKeys × List UInt8) : Except Fault CurveServer :=
  .ok (.new options p.1 p.2.1 p.2.2 downgradeSub)

theorem PlainServer.served : ZapSession.Served .plain (new options) (·.statusCode) where
  honest := honest
  silent p m made := by
    unfold new at made
    split at made
    · cases made
    · cases made
      rfl
  elsewhere p e made := by
    unfold new at made
    split at made
    · cases made
      nofun
    · cases made

/-- In every run in which no connection is lost while it waits for a reply, a mechanism acts on
    the status code that the handler gave for its own request, and no reply meets an engine
    that is still in the greeting. -/
theorem replies_are_matched (handler recvRoutingId : Bool) :
    (∀ s, Reaches (ZapSession.step .null (makeNull options))
        (fun s a => s.Possible a ∧ s.Patient a) (.start handler recvRoutingId) s →
      s.OwnCode (·.statusCode) ∧ ∀ a, s.Possible a →
        s.step .null (makeNull options) a ≠ .error (.assertion .zapMsgAvailable)) ∧
    (∀ s, Reaches (ZapSession.step .plain (PlainServer.new options))
        (fun s a => s.Possible a ∧ s.Patient a) (.start handler recvRoutingId) s →
      s.OwnCode (·.statusCode) ∧ ∀ a, s.Possible a →
        s.step .plain (PlainServer.new options) a ≠ .error (.assertion .zapMsgAvailable)) ∧
    ∀ box downgradeSub s, Reaches (ZapSession.step (.curve box) (makeCurve options downgradeSub))
        (fun s a => s.Possible a ∧ s.Patient a) (.start handler recvRoutingId) s →
      s.OwnCode (·.statusCode) ∧ ∀ a, s.Possible a →
        s.step (.curve box) (makeCurve options downgradeSub) a ≠
          .error (.assertion .zapMsgAvailable) := by
  refine ⟨fun s reached => ?_, fun s reached => ?_, fun box downgradeSub s reached => ?_⟩
  · have served : ZapSession.Served .null (makeNull options) (·.statusCode) := by
      refine ⟨NullMechanism.honest, fun p m made => ?_, nofun⟩
      cases made
      rfl
    exact ZapSession.codes_are_own served reached
  · exact ZapSession.codes_are_own (PlainServer.served options) reached
  · have served : ZapSession.Served (.curve box) (makeCurve options downgradeSub)
        (·.statusCode) := by
      refine ⟨CurveServer.honest, fun p m made => ?_, nofun⟩
      cases made
      rfl
    exact ZapSession.codes_are_own served reached

def someParameters : List UInt8 × ServerKeys × List UInt8 :=
  ([], ⟨List.replicate 32 2, List.replicate 32 8, List.replicate 32 8⟩, [])

theorem replies_are_matched_each :
    (∃ s : ZapSession NullMechanism, s.OwnCode (·.statusCode) ∧
      s.engine.any (·.any fun m => m.statusCode == okCode) = true) ∧
    (∃ s : ZapSession PlainServer, s.OwnCode (·.statusCode) ∧
      s.engine.any (·.any fun m => m.statusCode == okCode) = true) ∧
    ∃ s : ZapSession CurveServer, s.OwnCode (·.statusCode) ∧
      s.engine.any (·.any fun m => m.statusCode == okCode) = true := by
  refine ⟨?_, ?_, ?_⟩
  · exact Exists.imp (fun s run => ⟨((replies_are_matched _ _ _).1 s run.1).1, run.2⟩)
      (exists_reaches (ZapSession.step .null (makeNull { zapDomain := [1] })) _ (.start true false)
        [.attach, .greeted [], .next [], .answer { code := okCode }, .deliver] _ (by decide +kernel))
  · exact Exists.imp (fun s run => ⟨((replies_are_matched _ _ _).2.1 s run.1).1, run.2⟩)
      (exists_reaches (ZapSession.step .plain (PlainServer.new {})) _ (.start true false)
        [.attach, .greeted [], .process { data := plainHello ++ [1, 97, 1, 98] },
          .answer { code := okCode }, .deliver] _ (by decide +kernel))
  · exact Exists.imp (fun s run => ⟨((replies_are_matched _ _ _).2.2 _ _ s run.1).1, run.2⟩)
      (exists_reaches (ZapSession.step (.curve .transparent) (makeCurve {} false)) _
        (.start true false)
        (match someCommands with
          | .error _ => []
          | .ok (hello, initiate) =>
            [.attach, .greeted someParameters, .process hello, .next (List.replicate 64 9),
              .process initiate, .answer { code := okCode }, .deliver]) _ (by decide +kernel))

/-- The reply for a connection that was lost admits the next one, whose own request is then
    refused; and such a reply ends the program if the next connection is still in its
    greeting. -/
theorem late_reply_is_taken :
    (∃ s : ZapSession NullMechanism, Reaches (ZapSession.step .null (makeNull { zapDomain := [1] }))
        ZapSession.Possible (.start true false) s ∧
      s.engine.any (·.any fun m => ZapMechanism.null.status m = .ready) = true ∧
      ¬s.OwnCode (·.statusCode)) ∧
    ∃ s : ZapSession NullMechanism, Reaches (ZapSession.step .null (makeNull { zapDomain := [1] }))
        ZapSession.Possible (.start true false) s ∧
      s.Possible (.deliver : ZapAction (List UInt8)) ∧
      s.step .null (makeNull { zapDomain := [1] }) .deliver =
        .error (.assertion .zapMsgAvailable) := by
  constructor
  · obtain ⟨s, reached, test⟩ := exists_reaches
      (ZapSession.step .null (makeNull { zapDomain := [1] })) ZapSession.Possible
      (.start true false)
      [.attach, .greeted [], .next [], .lost, .answer { code := okCode }, .deliver,
        .attach, .greeted [], .next [], .process { data := readyCommand },
        .answer { code := [52, 48, 48] }]
      (fun s => s.engine.any (·.any fun m =>
        decide (m.statusCode = okCode ∧ ZapMechanism.null.status m = .ready ∧
          ∀ g ∈ s.given, g.1 = s.number → g.2.code ≠ okCode)) = true) (by decide +kernel)
    refine ⟨s, reached, ?_⟩
    rcases engine : s.engine with _ | _ | m
    · simp [engine] at test
    · simp [engine] at test
    · simp only [engine, Option.any_some, decide_eq_true_eq] at test
      obtain ⟨code, ready, refused⟩ := test
      refine ⟨by simp [ready], fun own => ?_⟩
      obtain ⟨a, given, same⟩ := own m engine (by simp [code, okCode])
      exact refused _ given rfl (same.trans code)
  · exact exists_reaches _ _ _
      [.attach, .greeted [], .next [], .lost, .attach, .answer { code := okCode }] _
      (by decide +kernel)

end Zmq
