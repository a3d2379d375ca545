import Zmq.Engine.Frame
import Zmq.Engine.Ws

/-! # WebSocket engines without a mechanism

For the plain protocol there is no mechanism, and the functions that use one assert that there is.
Which functions run depends on two pointers. Without a mechanism they stay with the functions of
the plain protocol, unless a heartbeat is due.
-/

namespace Zmq.WsEngine

open Lib StreamEngine

variable {μ ω : Type} {site : AssertSite} {f : WsEngine μ → WsEngine μ} {s : WsPlugged μ ω}
  {b : Bool}

/-- All but the assertions of `pull_and_encode` and `decode_and_push`. -/
def Harmless (e : Fault) : Prop :=
  e ≠ .assertion .pullAndEncode ∧ e ≠ .assertion .decodeAndPush

/-- The functions that need no mechanism, or that fail for another reason first. -/
def NextMsg.Plain (p : NextMsg WsNextMsg) : Prop :=
  p = .nextHandshakeCommand ∨ p = .routingIdMsg ∨ p = .pullMsgFromSession

def ProcessMsg.Plain (p : ProcessMsg) : Prop :=
  p = .processHandshakeCommand ∨ p = .processRoutingIdMsg ∨ p = .pushMsgToSession

def Apt (e : WsEngine μ) : Prop :=
  e.mechanism = none → NextMsg.Plain e.nextMsg ∧ ProcessMsg.Plain e.processMsg

/-- There is a mechanism, or the pointers suit an engine. -/
def Holds : Bool → WsPlugged μ ω → Prop
  | true, s => s.engine.mechanism.isSome = true
  | false, s => Apt s.engine

theorem Holds.weaken (armed : Holds true s) : Holds false s := by
  intro none
  simp [Holds, none] at armed

instance : IsPreorder (WsPlugged μ ω) fun _ _ => True where
  refl _ := trivial
  trans _ _ _ _ _ := trivial

abbrev Fine {α : Type} (armed : Bool) (x : WsM μ ω α) : Prop :=
  Keeps Harmless (Holds armed) (fun _ _ => True) x

section Frames

variable {armed : Bool} {α : Type}

variable {next : Unit → WsM μ ω α}

section

variable (same : ∀ e, ((f e).mechanism, (f e).nextMsg, (f e).processMsg) = (e.mechanism, e.nextMsg, e.processMsg))
include same

theorem fine_update : Fine armed (update f : WsM μ ω Unit) := by
  intro s holds
  simp only [Prod.mk.injEq] at same
  obtain ⟨mechanism, next, process⟩ := same s.engine
  refine ⟨?_, trivial⟩
  cases armed with
  | true => exact (congrArg Option.isSome mechanism).trans holds
  | false =>
    intro none
    rw [next, process]
    exact holds (mechanism.symm.trans none)

theorem fine_set (fine : Fine armed (next ())) : Fine armed (update f >>= next) :=
  .bind (fine_update same) fun _ => fine

end

theorem armed_update (same : ∀ e, (f e).mechanism = e.mechanism) :
    Fine true (update f : WsM μ ω Unit) := by
  intro s holds
  exact ⟨(congrArg Option.isSome (same s.engine)).trans holds, trivial⟩

theorem fine_call {x : Program Fault ω α} (harmless : ∀ w, wp Harmless x (fun _ _ => True) w) :
    Fine armed (call x : WsM μ ω α) := by
  intro s holds
  rw [call, wp_zoom]
  apply wp_mono (harmless s.world)
  intro a w _
  cases armed <;> exact ⟨holds, trivial⟩

theorem fine_of_armed {x : WsM μ ω α} (fine : Fine true x)
    (plain : ∀ s : WsPlugged μ ω, s.engine.mechanism = none → Apt s.engine →
      wp Harmless x (fun _ t => Apt t.engine) s) : Fine armed x := by
  cases armed with
  | true => exact fine
  | false =>
    intro s apt
    cases mechanism : s.engine.mechanism with
    | none => exact wp_mono (plain s mechanism apt) fun _ _ apt => ⟨apt, trivial⟩
    | some m =>
      have armed : Holds true s := by simp [Holds, mechanism]
      exact wp_mono (fine s armed) fun _ _ kept => ⟨kept.1.weaken, trivial⟩

theorem armed_ask {f : μ → α × μ} : Fine true (ask site f : WsM μ ω α) := by
  intro s holds
  simp only [ask]
  cases mechanism : s.engine.mechanism with
  | none => simp [Holds, mechanism] at holds
  | some m =>
    simp only [engine, wp_bind, wp_get, wp_pure, mechanism]
    exact ⟨rfl, trivial⟩

theorem fine_ask {f : μ → α × μ} (harmless : Harmless (.assertion site)) :
    Fine armed (ask site f : WsM μ ω α) := by
  refine fine_of_armed armed_ask fun s none apt => ?_
  simp only [ask, engine, wp_bind, wp_get, wp_pure, none]
  exact harmless

end Frames

/-! ## Output -/

variable {host : Host μ ω} {mech : Mechanism μ} {armed : Bool}

section

variable (respects : host.Respects Harmless)
include respects

theorem fine_pushIf (b : Bool) (m : Msg) : Fine armed (pushIf host b m : WsM μ ω Bool) :=
  .ite (fun _ => .bind (fine_call (respects.pushMsg m)) fun _ => .pure _) fun _ => .pure _

theorem fine_error (reason : ErrorReason) : Fine armed (error host mech reason : WsM μ ω Unit) := by
  refine .bind (.bind keeps_engine fun e => .when ?_) fun _ => ?_
  · exact .bind (fine_call (respects.pushMsg _)) fun _ => .pure _
  refine .bind (.bind keeps_engine fun e => .when ?_) fun _ => ?_
  · refine .bind (fine_call respects.rollback) fun _ => ?_
    exact .bind (fine_call (respects.pushMsg _)) fun _ => .pure _
  refine .bind (fine_call respects.flush) fun _ => .bind keeps_engine fun e => ?_
  refine .bind (fine_call (respects.engineError _ _)) fun _ => ?_
  intro s holds
  cases armed <;> exact ⟨holds, trivial⟩

theorem framed : Framed host Harmless (Holds true : WsPlugged μ ω → Prop) fun _ _ => True where
  respects := respects
  call := fine_call
  update f same := armed_update fun e => by
    have same := same e
    simp only [Prod.mk.injEq] at same
    exact same.2.2.2
  ask _ _ := armed_ask

theorem outputs : Outputs host Harmless (Holds armed : WsPlugged μ ω → Prop) fun _ _ => True where
  outsize _ := fine_update fun _ => rfl
  outputStopped _ := fine_update fun _ => rfl
  write n := fine_call (respects.write n)
  encode := ⟨nofun, nofun⟩
  encoder := ⟨nofun, nofun⟩

theorem armed_pullAndEncode : Fine true (pullAndEncode host mech : WsM μ ω (Rc × Msg)) := by
  intro s holds
  have rest : Fine true (do
      let r ← pullMsgFromSession host
      if r.1 = .ok then ask .pullAndEncode (mech.encode · r.2) else pure r : WsM μ ω (Rc × Msg)) :=
    .bind (keeps_pullMsgFromSession (fine_call respects.pullMsg)) fun _ => .when armed_ask
  have there : s.engine.mechanism.isSome = true := holds
  simpa [pullAndEncode, engine, assert, there] using rest s holds

theorem armed_nextMsgCall : Fine true (nextMsgCall host mech) := by
  refine .bind keeps_engine fun e => ?_
  cases e.nextMsg with
  | nextHandshakeCommand =>
    exact (framed respects).nextHandshakeCommand (armed_pullAndEncode respects)
  | routingIdMsg =>
    exact .bind keeps_engine fun e => .bind (armed_update fun _ => rfl) fun _ => .pure _
  | pullMsgFromSession => exact keeps_pullMsgFromSession (fine_call respects.pullMsg)
  | pullAndEncode => exact armed_pullAndEncode respects
  | producePingMessage =>
    refine .bind (armed_update fun _ => rfl) fun _ => ?_
    refine .bind (armed_update fun e => ?_) fun _ => .pure _
    split <;> rfl
  | producePongMessage => exact .bind (armed_update fun _ => rfl) fun _ => .pure _
  | own f =>
    cases f with
    | produceCloseMessage =>
      exact .bind keeps_engine fun e => .bind (armed_update fun _ => rfl) fun _ => .pure _
    | produceNoMsgAfterClose => exact .bind (armed_update fun _ => rfl) fun _ => .pure _
    | closeConnectionAfterClose => exact .bind (fine_error respects _) fun _ => .pure _

theorem fine_nextMsgCall : Fine armed (nextMsgCall host mech) := by
  refine fine_of_armed (armed_nextMsgCall respects) fun s none apt => ?_
  obtain ⟨next, process⟩ := apt none
  simp only [nextMsgCall, wp_bind, engine, wp_get, wp_pure]
  rcases next with next | next | next <;> rw [next]
  · simp only [nextHandshakeCommand, ask, engine, wp_bind, wp_get, wp_pure, none]
    exact ⟨(by simp), (by simp)⟩
  · exact fun _ => ⟨.inr (.inr rfl), process⟩
  · have pulls : Fine false (pullMsgFromSession host : WsM μ ω (Rc × Msg)) :=
      keeps_pullMsgFromSession (fine_call respects.pullMsg)
    exact wp_mono (pulls s apt) fun _ _ kept => kept.1

theorem fine_outEvent : Fine armed (outEvent host (nextMsgCall host mech)) :=
  (outputs respects).outEvent (fine_nextMsgCall respects) ⟨nofun, nofun⟩

theorem fine_restartOutput : Fine armed (restartOutput host (nextMsgCall host mech)) :=
  (outputs respects).restartOutput (fine_nextMsgCall respects) ⟨nofun, nofun⟩

/-! ## Input -/

section

variable (m : Msg)
include m

theorem armed_processCommandMessage : Fine true (processCommandMessage host mech m) := by
  refine .ite (fun _ => ?_) fun _ => .when ?_
  · exact .bind (armed_update fun _ => rfl) fun _ => fine_outEvent respects
  · exact .bind (armed_update fun _ => rfl) fun _ => fine_outEvent respects

theorem armed_decodeMsg : Fine true (decodeMsg host mech m) := by
  intro s holds
  have rest : Fine true (do
      if isControl m then do
        processCommandMessage host mech m
        pure (.ok, m)
      else ask .decodeAndPush (mech.decode · m)) :=
    .ite (fun _ => .bind (armed_processCommandMessage respects m) fun _ => .pure _)
      fun _ => armed_ask
  have there : s.engine.mechanism.isSome = true := holds
  simpa [decodeMsg, engine, assert, there] using rest s holds

theorem armed_decodeAndPush : Fine true (decodeAndPush host mech m) := by
  refine .bind (armed_decodeMsg respects m) fun result => ?_
  refine .when ?_
  refine fine_set (fun _ => rfl) ?_
  refine .bind (keeps_onlyIf (armed_processCommandMessage respects _)) fun _ => ?_
  refine .bind (fine_call (respects.pushMsg _)) fun pushed => ?_
  exact .bind (keeps_onlyIf (armed_update fun _ => rfl)) fun _ => .pure _

theorem fine_processRoutingIdMsg : Fine armed (processRoutingIdMsg host m) := by
  refine .bind keeps_engine fun e => ?_
  refine .bind (fine_pushIf respects _ _) fun known => ?_
  refine keeps_check ⟨nofun, nofun⟩ ?_
  refine .bind (fine_of_armed (armed_update fun _ => rfl) fun s none apt => ?_) fun _ => .pure _
  exact fun _ => ⟨(apt none).1, .inr (.inr rfl)⟩

theorem armed_processMsgCall : Fine true (processMsgCall host mech m) := by
  refine .bind keeps_engine fun e => ?_
  cases e.processMsg with
  | processRoutingIdMsg => exact fine_processRoutingIdMsg respects m
  | processHandshakeCommand =>
    exact (framed respects).processHandshakeCommand (fine_restartOutput respects) m
  | writeCredential => exact (framed respects).writeCredential (armed_decodeAndPush respects m)
  | decodeAndPush => exact armed_decodeAndPush respects m
  | pushOneThenDecodeAndPush => exact (framed respects).pushOneThenDecodeAndPush m
  | pushMsgToSession => exact fine_call (respects.pushMsg m)

theorem fine_processMsgCall : Fine armed (processMsgCall host mech m) := by
  refine fine_of_armed (armed_processMsgCall respects m) fun s none apt => ?_
  have routes : Fine false (processRoutingIdMsg host m) := fine_processRoutingIdMsg respects m
  have pushes : Fine false (call (host.pushMsg m) : WsM μ ω (Rc × Msg)) := fine_call (respects.pushMsg m)
  simp only [processMsgCall, wp_bind, engine, wp_get, wp_pure]
  rcases (apt none).2 with process | process | process <;> rw [process]
  · simp only [processHandshakeCommand, ask, engine, wp_bind, wp_get, wp_pure, none]
    exact ⟨(by simp), (by simp)⟩
  · exact wp_mono (routes s apt) fun _ _ kept => kept.1
  · exact wp_mono (pushes s apt) fun _ _ kept => kept.1

end

theorem fine_processDecoded : Fine armed (processDecoded (processMsgCall host mech)) := by
  refine .bind keeps_engine fun e => ?_
  refine .bind (fine_processMsgCall respects _) fun result => ?_
  exact fine_set (fun _ => rfl) (.pure _)

theorem fine_decodeFrames (n : Nat) : Fine armed (decodeFrames (processMsgCall host mech) n) := by
  induction n with
  | zero => exact .pure _
  | succ n ih =>
    refine .bind keeps_engine fun e => ?_
    cases e.input with
    | nil => exact .pure _
    | cons frame rest =>
      cases frame with
      | malformed => exact fine_set (fun _ => rfl) (.pure _)
      | frame m =>
        refine fine_set (fun _ => rfl) ?_
        refine .bind (fine_processDecoded respects) fun rc => ?_
        exact .when ih

end

/-! ## Handshake -/

variable {host : WsHost μ ω}

theorem fine_selectProtocol (p : WsProtocol) : Fine armed (selectProtocol host p : WsM μ ω Bool) := by
  refine .bind keeps_engine fun e => ?_
  refine .ite (fun _ => ?_) fun _ => .when ?_
  · refine .bind (fine_of_armed (armed_update fun e => ?_) fun s none apt => ?_) fun _ => .pure _
    · dsimp only
      split <;> rfl
    · rw [update, wp_modify]
      dsimp only
      split <;> exact fun _ => ⟨.inr (.inl rfl), .inr (.inl rfl)⟩
  · refine .bind (Keeps.modify fun s _ => ⟨?_, trivial⟩) fun _ => .pure _
    cases armed with
    | true => rfl
    | false => exact nofun

theorem fine_serverHeader (header : List WsProtocol) :
    Fine armed (serverHeader host header : WsM μ ω Unit) := by
  induction header with
  | nil => exact .pure _
  | cons p rest ih =>
    refine .bind (fine_selectProtocol p) fun selected => ?_
    exact .ite (fun _ => fine_update fun _ => rfl) fun _ => ih

theorem fine_readHeaders (headers : List (List WsProtocol)) :
    Fine armed (readHeaders host headers : WsM μ ω Bool) := by
  induction headers with
  | nil => exact .pure _
  | cons header rest ih =>
    refine .bind keeps_engine fun e => ?_
    refine .ite (fun _ => ?_) fun _ => ?_
    · refine .ite (fun _ => .pure _) fun _ => ?_
      refine .bind (fine_selectProtocol _) fun selected => ?_
      exact .bind (keeps_onlyIf (fine_update fun _ => rfl)) fun _ => ih
    · exact .bind (keeps_onlyIf (fine_serverHeader header)) fun _ => ih

/-- A host that keeps to harmless failures in the handshake, too. -/
structure Respects (host : WsHost μ ω) : Prop extends host.toHost.Respects Harmless where
  headers : ∀ w, wp Harmless host.headers (fun _ _ => True) w

theorem fine_errorFalse (respects : host.toHost.Respects Harmless) (reason : ErrorReason) :
    Fine armed (do
      error host.toHost mech reason
      pure false : WsM μ ω Bool) :=
  .bind (fine_error respects reason) fun _ => .pure _

theorem fine_handshake (respects : Respects host) : Fine armed (handshake host mech) := by
  refine .bind (fine_call respects.headers) fun headers => ?_
  cases headers with
  | again => exact .pure _
  | lost => exact fine_errorFalse respects.toRespects _
  | data protocols ending =>
    refine .bind (fine_readHeaders protocols) fun fine => ?_
    refine .ite (fun _ => ?_) fun _ => fine_errorFalse respects.toRespects _
    cases ending with
    | waiting => exact .pure _
    | complete frames =>
      refine .bind keeps_engine fun e => ?_
      refine .ite (fun _ => ?_) fun _ => fine_errorFalse respects.toRespects _
      exact fine_set (fun _ => rfl) (.pure _)
    | malformed => exact fine_errorFalse respects.toRespects _

theorem fine_greeted (respects : Respects host) : Fine armed (greeted host.toHost (derived host mech)) := by
  refine .bind keeps_engine fun e => ?_
  refine .when ?_
  refine .bind (fine_handshake respects) fun done => ?_
  refine .when ?_
  refine fine_set (fun _ => rfl) ?_
  refine .bind keeps_engine fun e => ?_
  exact .bind (keeps_onlyIf (fine_call respects.engineReady)) fun _ => .pure _

/-! ## Events -/

theorem fine_decodeInput (respects : host.toHost.Respects Harmless) :
    Fine armed (decodeInput host.toHost mech (derived host mech)) := by
  refine .bind keeps_engine fun e => ?_
  refine .bind (fine_decodeFrames respects _) fun rc => ?_
  cases rc with
  | ok => exact .bind (fine_call respects.flush) fun _ => .pure _
  | again =>
    refine fine_set (fun _ => rfl) ?_
    exact .bind (fine_call respects.flush) fun _ => .pure _
  | failed => exact fine_errorFalse respects _

theorem fine_receive (respects : host.toHost.Respects Harmless) :
    Fine armed (receive host.toHost mech (derived host mech)) := by
  refine .bind keeps_engine fun e => ?_
  cases e.input with
  | cons frame rest => exact fine_decodeInput respects
  | nil =>
    refine .bind (fine_call respects.read) fun received => ?_
    cases received with
    | again => exact .pure _
    | lost => exact fine_errorFalse respects _
    | data frames =>
      exact fine_set (fun _ => rfl) (fine_decodeInput respects)

section

variable (respects : Respects host)
include respects

theorem fine_inEventInternal :
    Fine armed (inEventInternal host.toHost mech (derived host mech)) := by
  refine .bind keeps_engine fun e => ?_
  refine keeps_check ⟨nofun, nofun⟩ ?_
  refine .bind (fine_greeted respects) fun done => ?_
  refine .when ?_
  refine .bind keeps_engine fun e => ?_
  refine keeps_check ⟨nofun, nofun⟩ ?_
  refine .ite (fun _ => ?_) fun _ => fine_receive respects.toRespects
  exact fine_set (fun _ => rfl) (.pure _)

theorem fine_resumeInput (rc : Rc) :
    Fine armed (resumeInput host.toHost mech (derived host mech) rc) := by
  refine .bind keeps_engine fun e => ?_
  refine .ite (fun _ => ?_) fun _ => ?_
  · exact .bind (fine_call respects.flush) fun _ => .pure _
  refine .ite (fun _ => fine_errorFalse respects.toRespects _) fun _ => ?_
  refine .ite (fun _ => fine_errorFalse respects.toRespects _) fun _ => ?_
  refine fine_set (fun _ => rfl) ?_
  exact .bind (fine_call respects.flush) fun _ => fine_inEventInternal respects

theorem fine_restartInput : Fine armed (restartInput host.toHost mech (derived host mech)) := by
  refine .bind keeps_engine fun e => ?_
  refine keeps_check ⟨nofun, nofun⟩ ?_
  refine .bind (fine_processDecoded respects.toRespects) fun rc => ?_
  cases rc with
  | again => exact .bind (fine_call respects.flush) fun _ => .pure _
  | failed => exact fine_errorFalse respects.toRespects _
  | ok =>
    refine .bind keeps_engine fun e => ?_
    exact .bind (fine_decodeFrames respects.toRespects _) fun rc => fine_resumeInput respects rc

theorem fine_zapMsgAvailable :
    Fine armed (zapMsgAvailable host.toHost mech (derived host mech)) := by
  refine .bind (fine_ask ⟨nofun, nofun⟩) fun rc => ?_
  refine .ite (fun _ => ?_) fun _ => fine_error respects.toRespects _
  refine .bind (.bind keeps_engine fun e => ?_) fun goes_on => ?_
  · exact .when (fine_restartInput respects)
  refine .when ?_
  refine .bind keeps_engine fun e => ?_
  exact .when (fine_restartOutput respects.toRespects)

theorem fine_handle (event : EngineEvent)
    (suits : event = .timerEvent .heartbeatIvl → armed = true) :
    Fine armed (handle host mech event) := by
  cases event with
  | inEvent => exact .bind (fine_inEventInternal respects) fun _ => .pure _
  | outEvent => exact fine_outEvent respects.toRespects
  | restartInput => exact .bind (fine_restartInput respects) fun _ => .pure _
  | restartOutput => exact fine_restartOutput respects.toRespects
  | zapMsgAvailable => exact fine_zapMsgAvailable respects
  | timerEvent id =>
    cases id with
    | handshake | heartbeatTimeout | heartbeatTtl =>
      refine fine_set (fun _ => rfl) ?_
      exact fine_error respects.toRespects _
    | heartbeatIvl =>
      obtain rfl := suits rfl
      refine .bind (armed_update fun _ => rfl) fun _ => ?_
      refine .bind (fine_outEvent respects.toRespects) fun _ => ?_
      exact fine_update fun _ => rfl

/-- No heartbeat is due without a mechanism. -/
def Calm (s : WsPlugged μ ω) (a : WsAction ω) : Prop :=
  Allowed s a ∧ (a = .event (.timerEvent .heartbeatIvl) → s.engine.mechanism.isSome = true)

instance [DecidableEq ω] (s : WsPlugged μ ω) (a : WsAction ω) : Decidable (Calm s a) :=
  inferInstanceAs (Decidable (_ ∧ _))

theorem step_apt (mech : Mechanism μ) (apt : Apt s.engine) {a : WsAction ω} (calm : Calm s a) :
    (∀ t, step host mech s a = .ok t → Apt t.engine) ∧
      ∀ e, step host mech s a = .error e → Harmless e := by
  cases a with
  | elsewhere world =>
    constructor
    · rintro t ⟨⟩
      exact apt
    · exact nofun
  | event e =>
    have runs : wp Harmless (handle host mech e) (fun _ t => Apt t.engine) s := by
      cases mechanism : s.engine.mechanism with
      | some m =>
        have fine : Fine true (handle host mech e) := fine_handle respects e fun _ => rfl
        have armed : Holds true s := by simp [Holds, mechanism]
        exact wp_mono (fine s armed) fun _ _ kept => kept.1.weaken
      | none =>
        have suits : e = .timerEvent .heartbeatIvl → false = true := by
          rintro rfl
          have armed := calm.2 rfl
          rw [mechanism] at armed
          exact armed
        exact wp_mono (fine_handle respects e suits s apt) fun _ _ kept => kept.1
    constructor
    · intro t taken
      obtain ⟨result, ran, rfl⟩ := map_ok.mp taken
      exact wp_ok runs ran
    · intro fault failed
      exact wp_error runs (map_error.mp failed)

end

/-- Without a mechanism nothing is encoded and nothing is decoded, as long as no heartbeat is due. -/
theorem nothing_encoded_without_mechanism (respects : Respects host) (options : EngineOptions)
    (client : Bool) (world : ω)
    {s : WsPlugged μ ω} (reached : Reaches (step host mech) Calm (start options client world) s) :
    (s.engine.mechanism = none →
      s.engine.nextMsg ≠ .pullAndEncode ∧ s.engine.processMsg ≠ .decodeAndPush) ∧
    ∀ a, Calm s a → step host mech s a ≠ .error (.assertion .pullAndEncode) ∧
      step host mech s a ≠ .error (.assertion .decodeAndPush) := by
  have apt : Apt s.engine := by
    refine reached.invariant (P := fun s => Apt s.engine) ?_ fun s a t apt calm taken => ?_
    · exact fun _ => ⟨.inl rfl, .inl rfl⟩
    · exact (step_apt respects mech apt calm).1 t taken
  constructor
  · intro none
    obtain ⟨next, process⟩ := apt none
    constructor
    · intro other
      simp [NextMsg.Plain, other] at next
    · intro other
      simp [ProcessMsg.Plain, other] at process
  · intro a calm
    have harmless := (step_apt respects mech apt calm).2
    exact ⟨fun failed => (harmless _ failed).1 rfl, fun failed => (harmless _ failed).2 rfl⟩

/-- A peer that offers the plain protocol and then says nothing. -/
def plainHost : WsHost Unit Unit where
  pushMsg _ := pure (.ok, .init)
  pullMsg := pure none
  flush := pure ()
  rollback := pure ()
  engineReady := pure ()
  engineError _ _ := pure ()
  greeting := pure .waiting
  read := pure .again
  write n := pure (some n)
  headers := pure (.data [[.zws2]] (.complete []))
  newMechanism _ := ()

def idleMechanism : Mechanism Unit where
  status _ := .handshaking
  nextHandshakeCommand _ := ((.again, .init), ())
  processHandshakeCommand _ m := ((.ok, m), ())
  encode _ m := ((.ok, m), ())
  decode _ m := ((.ok, m), ())
  zapMsgAvailable _ := (.ok, ())
  peerRoutingId _ := []
  getUserId _ := []

/-- A server with the default mechanism, and a heartbeat every second. -/
def beatingServer : EngineOptions := { mechanism := .null, heartbeatInterval := 1000 }

theorem plainHost_respects : Respects plainHost :=
  ⟨⟨fun _ _ => trivial, fun _ => trivial, fun _ => trivial, fun _ => trivial, fun _ => trivial,
    fun _ _ _ => trivial, fun _ => trivial, fun _ => trivial, fun _ _ => trivial⟩, fun _ => trivial⟩

theorem nothing_encoded_without_mechanism_handshake :
    ∃ s : WsPlugged Unit Unit, s.engine.mechanism = none ∧ s.engine.handshaking = false ∧
      s.engine.nextMsg ≠ .pullAndEncode ∧ s.engine.processMsg ≠ .decodeAndPush := by
  obtain ⟨s, reached, none, done⟩ := exists_reaches (step plainHost idleMechanism) Calm
    (start beatingServer false ()) [.event .inEvent]
    (fun s => s.engine.mechanism = none ∧ s.engine.handshaking = false) (by decide +kernel)
  exact ⟨s, none, done,
    (nothing_encoded_without_mechanism plainHost_respects beatingServer false () reached).1 none⟩

/-- A heartbeat of the plain protocol: the PING is followed by `pull_and_encode`. -/
theorem heartbeat_without_mechanism_aborts : ∃ s : WsPlugged Unit Unit,
      Reaches (step plainHost idleMechanism) Allowed (start beatingServer false ()) s ∧
      Allowed s (.event (.timerEvent .heartbeatIvl)) ∧
      step plainHost idleMechanism s (.event (.timerEvent .heartbeatIvl)) =
        .error (.assertion .pullAndEncode) :=
  exists_reaches _ _ _ [.event .inEvent, .event .outEvent] _ (by decide +kernel)

end Zmq.WsEngine
