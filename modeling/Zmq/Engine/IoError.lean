import Zmq.Session.Faults
import Zmq.Mechanism.Null

/-! # Engines after an I/O error

When the peer dies while the session is full, the engine notes the error, takes its
descriptor from the poller and waits until the session has taken the messages it still
has. The input and output functions assert that they do not run in that state. Poller,
session and ZAP client keep to it; the heartbeat does not.
-/

namespace Zmq

open Lib

/-- A PING is what the mechanism can make of this frame. -/
def Mechanism.Pings {μ : Type} (mech : Mechanism μ) (m : Msg) : Prop :=
  ∃ k, (mech.decode k m).1.1 = .ok ∧ (mech.decode k m).1.2.command = true ∧
    (mech.decode k m).1.2.named.isPing = true

namespace Engine

variable {μ ω : Type} {site : AssertSite} {m : Msg} {b : Bool}

/-- All but the two assertions on `_io_error`. -/
def Tolerable (e : Fault) : Prop :=
  e ≠ .assertion .inEventInternal ∧ e ≠ .assertion .outEvent

structure Same (s t : Plugged μ ω) : Prop where
  ioError : t.engine.ioError = s.engine.ioError
  polled : t.engine.polled = s.engine.polled
  gone : t.gone = s.gone

structure Kept (s t : Plugged μ ω) : Prop extends Same s t where
  input : t.engine.input = s.engine.input

instance : IsPreorder (Plugged μ ω) Same where
  refl _ := ⟨rfl, rfl, rfl⟩
  trans _ _ _ first second := ⟨second.ioError.trans first.ioError,
    second.polled.trans first.polled, second.gone.trans first.gone⟩

instance : IsPreorder (Plugged μ ω) Kept where
  refl s := ⟨refl_of Same s, rfl⟩
  trans _ _ _ first second :=
    ⟨trans_of Same first.toSame second.toSame, second.input.trans first.input⟩

/-- Programs that fail tolerably and leave the error state and the input alone, if
    `_io_error` is `io`. -/
abbrev Frame {α : Type} (io : Bool) (x : EngineM μ ω α) : Prop :=
  Keeps Tolerable (fun s => s.engine.ioError = io) Kept x

open StreamEngine (keeps_engine keeps_check keeps_onlyIf keeps_pullMsgFromSession error_gone)

section Frames

variable {io : Bool} {α : Type}

variable {f : Engine μ → Engine μ} {next : Unit → EngineM μ ω α}

section

variable (stays : ∀ e, ((f e).ioError, (f e).polled, (f e).input) = (e.ioError, e.polled, e.input))
include stays

theorem frame_update : Frame io (update f : EngineM μ ω Unit) := by
  intro s here
  simp only [Prod.mk.injEq] at stays
  obtain ⟨ioError, polled, input⟩ := stays s.engine
  exact ⟨ioError.trans here, ⟨ioError, polled, rfl⟩, input⟩

theorem frame_set (frame : Frame io (next ())) : Frame io (update f >>= next) :=
  .bind (frame_update stays) fun _ => frame

end

theorem frame_call {x : Program Fault ω α} (tolerable : ∀ w, wp Tolerable x (fun _ _ => True) w) :
    Frame io (call x : EngineM μ ω α) := by
  intro s here
  rw [call, wp_zoom]
  apply wp_mono (tolerable s.world)
  intro a w _
  exact ⟨here, ⟨rfl, rfl, rfl⟩, rfl⟩

theorem frame_ask {f : μ → α × μ} (tolerable : Tolerable (.assertion site)) :
    Frame io (ask site f : EngineM μ ω α) := by
  refine .bind keeps_engine fun e => ?_
  cases e.mechanism with
  | none => exact .throw tolerable
  | some m => exact frame_set (fun _ => rfl) (.pure _)

end Frames

/-! ## Output -/

variable {host : Host μ ω} {mech : Mechanism μ} {io : Bool}

theorem frame_producePingMessage : Frame io (producePingMessage mech : EngineM μ ω (Rc × Msg)) := by
  refine .bind keeps_engine fun e => ?_
  refine .bind (frame_ask ⟨nofun, nofun⟩) fun result => ?_
  refine frame_set (fun _ => rfl) ?_
  exact frame_set (fun _ => by split <;> rfl) (.pure _)

theorem frame_producePongMessage : Frame io (producePongMessage mech : EngineM μ ω (Rc × Msg)) := by
  refine .bind keeps_engine fun e => ?_
  refine .bind (frame_ask ⟨nofun, nofun⟩) fun result => ?_
  exact frame_set (fun _ => rfl) (.pure _)

theorem ask_returns {α : Type} {f : μ → α × μ} (tolerable : Tolerable (.assertion site))
    (s : Plugged μ ω) : wp Tolerable (ask site f) (fun a _ => ∃ k, (f k).1 = a) s := by
  simp only [ask, wp_bind, wp_engine]
  cases s.engine.mechanism with
  | none => exact tolerable
  | some k => exact ⟨k, rfl⟩

/-- The message in the decoder is to be decoded by the mechanism. -/
def undecoded (e : Engine μ) : Bool :=
  e.processMsg == .writeCredential || e.processMsg == .decodeAndPush

/-- In the error state the next message is not a PING. -/
def QuietDecoder (mech : Mechanism μ) (s : Plugged μ ω) : Prop :=
  s.engine.ioError = true → s.engine.undecoded = true → ¬ mech.Pings (s.engine.decoder.getD .init)

/-- In the error state no frame of the input is a PING. -/
def QuietInput (mech : Mechanism μ) (s : Plugged μ ω) : Prop :=
  s.engine.ioError = true → ∀ m, .frame m ∈ s.engine.input → ¬ mech.Pings m

variable {s t : Plugged μ ω}

theorem QuietInput.kept (quiet : QuietInput mech s) (kept : Kept s t) : QuietInput mech t := by
  intro here m mem
  exact quiet (kept.ioError.symm.trans here) m (kept.input ▸ mem)

section

variable (respects : host.Respects Tolerable)
include respects

theorem framed :
    StreamEngine.Framed host Tolerable (fun s : Plugged μ ω => s.engine.ioError = io) Kept where
  respects := respects
  call := frame_call
  update f stays := by
    simp only [Prod.mk.injEq] at stays
    exact frame_update fun e => by simp [stays e]
  ask out inward := frame_ask ⟨by simpa using inward, by simpa using out⟩

theorem frame_outputs :
    StreamEngine.Outputs host Tolerable (fun s : Plugged μ ω => s.engine.ioError = io) Kept where
  outsize _ := frame_update fun _ => rfl
  outputStopped _ := frame_update fun _ => rfl
  write n := frame_call (respects.write n)
  encode := ⟨nofun, nofun⟩
  encoder := ⟨nofun, nofun⟩

theorem frame_pullAndEncode : Frame io (pullAndEncode host mech) := by
  refine .bind keeps_engine fun e => ?_
  refine keeps_check ⟨nofun, nofun⟩ ?_
  refine .bind (keeps_pullMsgFromSession (frame_call respects.pullMsg)) fun result => ?_
  exact .when (frame_ask ⟨nofun, nofun⟩)

theorem frame_nextMsgCall : Frame io (nextMsgCall host mech) := by
  refine .bind keeps_engine fun e => ?_
  cases e.nextMsg with
  | routingIdMsg => exact .bind keeps_engine fun e => frame_set (fun _ => rfl) (.pure _)
  | nextHandshakeCommand =>
    exact (framed respects).nextHandshakeCommand (frame_pullAndEncode respects)
  | pullMsgFromSession => exact keeps_pullMsgFromSession (frame_call respects.pullMsg)
  | pullAndEncode => exact frame_pullAndEncode respects
  | producePingMessage => exact frame_producePingMessage
  | producePongMessage => exact frame_producePongMessage
  | own f => exact f.elim

theorem frame_outEvent : Frame false (outEvent host mech) := by
  intro s here
  have rest : Frame false (do
      let some_left ← fillOutput host mech
      if some_left then writeOutput host else pure ()) := by
    refine .bind ((frame_outputs respects).fillOutput (frame_nextMsgCall respects)) fun some_left => ?_
    exact .when (frame_outputs respects).writeOutput
  simpa [StreamEngine.outEvent, assert, here] using rest s here

theorem frame_restartOutput : Frame io (restartOutput host mech) := by
  intro s here
  cases io with
  | true => simpa [StreamEngine.restartOutput, here] using refl_of Kept s
  | false =>
    have rest : Frame false (do
        update (ω := ω) fun e => { e with outputStopped := false }
        outEvent host mech) :=
      frame_set (fun _ => rfl) (frame_outEvent respects)
    simpa [StreamEngine.restartOutput, here] using rest s here

/-! ## Input -/

theorem frame_processRoutingIdMsg (m : Msg) : Frame io (processRoutingIdMsg host m) := by
  refine .bind keeps_engine fun e => ?_
  refine .bind ((framed respects).pushIf _ _) fun known => ?_
  refine keeps_check ⟨nofun, nofun⟩ ?_
  refine .bind ((framed respects).pushIf _ _) fun subscribed => ?_
  refine keeps_check ⟨nofun, nofun⟩ ?_
  exact frame_set (fun _ => rfl) (.pure _)

theorem frame_processHeartbeatMessage
    (quiet : io = true → m.isPing = false) : Frame io (processHeartbeatMessage host mech m) := by
  refine .ite (fun ping => ?_) fun _ => .pure _
  obtain rfl : io = false := by
    cases io with
    | false => rfl
    | true => simp [quiet rfl] at ping
  refine .ite (fun _ => .throw ⟨nofun, nofun⟩) fun _ => ?_
  refine frame_set (fun _ => by split <;> rfl) ?_
  exact frame_set (fun _ => rfl) (frame_outEvent respects)

theorem frame_processCommandMessage
    (quiet : io = true → m.command = true → m.named.isPing = false) :
    Frame io (processCommandMessage host mech m) := by
  refine .ite (fun command => ?_) fun _ => .pure _
  exact .bind (frame_processHeartbeatMessage respects fun here => quiet here command)
    fun _ => .pure _

theorem frame_decodeAndPush
    (quiet : io = true → ¬ mech.Pings m) : Frame io (decodeAndPush host mech m) := by
  have tolerable : Tolerable (.assertion .decodeAndPush) := ⟨nofun, nofun⟩
  refine .bind_of (frame_ask tolerable) (fun s _ => ask_returns tolerable s) ?_
  rintro ⟨rc, decoded⟩ ⟨k, answer⟩
  refine .ite (fun ok => ?_) fun _ => .pure _
  refine frame_set (fun _ => rfl) ?_
  refine .bind (frame_processCommandMessage respects fun here command => ?_) fun m => ?_
  · apply Bool.eq_false_iff.mpr
    intro ping
    exact quiet here ⟨k, by simp [answer, ok], by simp [answer, command], by simp [answer, ping]⟩
  refine .bind (frame_call (respects.pushMsg m)) fun result => ?_
  exact .bind (keeps_onlyIf (frame_update fun _ => rfl)) fun _ => .pure _

theorem processMsgCall_kept
    (quiet : s.engine.ioError = true → s.engine.undecoded = true → ¬ mech.Pings m) :
    wp Tolerable (processMsgCall host mech m) (fun _ t => Kept s t) s := by
  have run {x : EngineM μ ω (Rc × Msg)} (frame : Frame s.engine.ioError x) :
      wp Tolerable x (fun _ t => Kept s t) s := wp_mono (frame s rfl) fun _ _ kept => kept.2
  simp only [processMsgCall, wp_bind, wp_engine]
  cases process : s.engine.processMsg with
  | processRoutingIdMsg => exact run (frame_processRoutingIdMsg respects m)
  | processHandshakeCommand =>
    exact run ((framed respects).processHandshakeCommand (frame_restartOutput respects) m)
  | writeCredential =>
    refine run ((framed respects).writeCredential (frame_decodeAndPush respects fun here => ?_))
    exact quiet here (by simp [undecoded, process])
  | decodeAndPush =>
    exact run (frame_decodeAndPush respects fun here => quiet here (by simp [undecoded, process]))
  | pushOneThenDecodeAndPush => exact run ((framed respects).pushOneThenDecodeAndPush m)
  | pushMsgToSession => exact run (frame_call (respects.pushMsg m))

theorem processDecoded_kept (quiet : QuietDecoder mech s) :
    wp Tolerable (processDecoded host mech) (fun _ t => Kept s t) s := by
  simp only [StreamEngine.processDecoded, wp_bind]
  apply wp_mono (processMsgCall_kept respects quiet)
  intro result t kept
  exact ⟨{ kept with }, kept.input⟩

theorem decodeFrames_same (n : Nat) :
    ∀ s : Plugged μ ω, QuietInput mech s →
      wp Tolerable (decodeFrames host mech n) (fun _ t => Same s t) s := by
  induction n with
  | zero => exact fun s _ => refl_of Same s
  | succ n ih =>
    intro s quiet
    simp only [StreamEngine.decodeFrames, wp_bind, wp_engine]
    cases input : s.engine.input with
    | nil => exact refl_of Same s
    | cons frame rest =>
      cases frame with
      | malformed => exact ⟨rfl, rfl, rfl⟩
      | frame m =>
        simp only [wp_bind, wp_update]
        refine wp_mono (processDecoded_kept respects fun here _ => ?_) fun rc t kept => ?_
        · exact quiet here m (by simp [input])
        have same : Same s t := { kept with }
        apply wp_ite
        · intro _
          refine wp_mono (ih t ?_) fun _ u further => trans_of Same same further
          intro here m mem
          rw [kept.input] at mem
          exact quiet (kept.ioError.symm.trans here) m (input ▸ List.mem_cons_of_mem _ mem)
        · exact fun _ => same

end

/-! ## Events -/

def Settled (s : Plugged μ ω) : Prop :=
  s.gone = true ∨ s.engine.polled = !s.engine.ioError

theorem Settled.same (settled : Settled s) (same : Same s t) : Settled t := by
  unfold Settled at *
  rwa [same.ioError, same.polled, same.gone]

structure Running (s : Plugged μ ω) : Prop where
  ioError : s.engine.ioError = false
  polled : s.engine.polled = true

theorem Running.settled (running : Running s) : Settled s :=
  .inr (by simp [running.ioError, running.polled])

theorem Running.same (running : Running s) (same : Same s t) : Running t :=
  ⟨same.ioError.trans running.ioError, same.polled.trans running.polled⟩

theorem Settled.running (settled : Settled s) (gone : s.gone = false)
    (ioError : s.engine.ioError = false) : Running s := by
  have polled : s.engine.polled = !s.engine.ioError := settled.resolve_left (by simp [gone])
  exact ⟨ioError, by simp [polled, ioError]⟩

theorem call_same {α : Type} {x : Program Fault ω α}
    (tolerable : ∀ w, wp Tolerable x (fun _ _ => True) w) (s : Plugged μ ω) :
    wp Tolerable (call x) (fun _ t => Kept s t) s :=
  wp_mono (frame_call tolerable s rfl) fun _ _ kept => kept.2

abbrev Goes (done : Bool) (t : Plugged μ ω) : Prop :=
  Settled t ∧ (done = true → Running t)

section

variable (respects : host.Respects Tolerable)
include respects

variable {s : Plugged μ ω}

section

variable (running : Running s)
include running

theorem handshake_goes : wp Tolerable (handshake host mech) Goes s := by
  have ends (reason : ErrorReason) (t : Plugged μ ω) :
      wp Tolerable (do error host mech reason; pure false) Goes t := by
    rw [wp_bind]
    exact wp_mono (error_gone respects reason t) fun _ _ gone => ⟨.inl gone, nofun⟩
  have legacy (encoder : Encoder) (f : Engine μ → Engine μ) (t : Plugged μ ω)
      (keeps : ∀ e, (f e).ioError = e.ioError ∧ (f e).polled = e.polled)
      (there : Running t) : wp Tolerable (handshakeLegacy host mech encoder f) Goes t := by
    apply wp_ite
    · intro _
      exact ends _ t
    · intro _
      have next : Running ({ t with engine := f { t.engine with
          encoder := some encoder, decoder := some .init } } : Plugged μ ω) :=
        ⟨(keeps _).1.trans there.ioError, (keeps _).2.trans there.polled⟩
      exact ⟨next.settled, fun _ => next⟩
  have v3 (encoder : Encoder) (m : μ) (t : Plugged μ ω) (there : Running t) :
      wp Tolerable (handshakeV3 encoder m) Goes t := by
    have next := there.same (t := { t with engine := { t.engine with
      encoder := some encoder
      decoder := some .init
      mechanism := some m
      nextMsg := .nextHandshakeCommand
      processMsg := .processHandshakeCommand } }) ⟨rfl, rfl, rfl⟩
    exact ⟨next.settled, fun _ => next⟩
  apply wp_ite
  · intro _
    rw [wp_bind]
    refine wp_mono (call_same respects.greeting s) fun greeting t kept => ?_
    have there := running.same kept.toSame
    cases greeting with
    | waiting => exact ⟨there.settled, nofun⟩
    | lost | mismatch => exact ends _ t
    | unversioned | v1_0 | v2_0 => exact legacy _ _ t (fun _ => ⟨rfl, rfl⟩) there
    | v3_0 m | v3_1 m => exact v3 _ m t there
  · intro _
    exact ⟨running.settled, fun _ => running⟩

theorem greeted_goes : wp Tolerable (greeted host mech) Goes s := by
  apply wp_ite
  · intro _
    rw [wp_bind]
    refine wp_mono (handshake_goes respects running) fun done t goes => wp_ite (fun yes => ?_) ?_
    · have finish : Frame false (do
          update (μ := μ) (ω := ω) fun e => { e with handshaking := false }
          let e ← engine
          onlyIf (e.mechanism.isNone && e.hasHandshakeStage) (call host.engineReady)
          pure true) := by
        refine frame_set (fun _ => rfl) (.bind keeps_engine fun e => ?_)
        exact .bind (keeps_onlyIf (frame_call respects.engineReady)) fun _ => .pure _
      refine wp_mono (finish t (goes.2 yes).ioError) fun _ u kept => ?_
      have there := (goes.2 yes).same kept.2.toSame
      exact ⟨there.settled, fun _ => there⟩
    · exact fun _ => ⟨goes.1, nofun⟩
  · exact fun _ => ⟨running.settled, fun _ => running⟩

theorem decodeInput_settled : wp Tolerable (decodeInput host mech) (fun _ t => Settled t) s := by
  simp only [StreamEngine.decodeInput, wp_bind, wp_engine]
  refine wp_mono (decodeFrames_same respects _ s (by simp [QuietInput, running.ioError])) fun rc t same => ?_
  have there := running.same same
  cases rc with
  | ok =>
    rw [wp_bind]
    exact wp_mono (call_same respects.flush t) fun _ u kept =>
      (there.same kept.toSame).settled
  | again =>
    simp only [wp_bind, wp_update]
    refine wp_mono (call_same respects.flush _) fun _ u kept => ?_
    exact there.settled.same { kept with }
  | failed =>
    rw [wp_bind]
    exact wp_mono (error_gone respects _ t) fun _ _ gone => .inl gone

theorem receive_settled : wp Tolerable (receive host mech) (fun _ t => Settled t) s := by
  simp only [StreamEngine.receive, wp_bind, wp_engine]
  cases s.engine.input with
  | cons frame rest => exact decodeInput_settled respects running
  | nil =>
    rw [wp_bind]
    refine wp_mono (call_same respects.read s) fun received t kept => ?_
    have there := running.same kept.toSame
    cases received with
    | again => exact there.settled
    | lost =>
      rw [wp_bind]
      exact wp_mono (error_gone respects _ t) fun _ _ gone => .inl gone
    | data frames =>
      exact decodeInput_settled respects ⟨there.ioError, there.polled⟩

/-- The only place where `_io_error` is set, together with `rm_fd`. -/
theorem inEventInternal_settled : wp Tolerable (inEventInternal host mech) (fun _ t => Settled t) s := by
  simp only [StreamEngine.inEventInternal, wp_bind]
  refine wp_assert (by simp [running.ioError]) fun _ => ?_
  refine wp_mono (greeted_goes respects running) fun done t goes => wp_ite (fun yes => ?_) ?_
  · simp only [wp_bind]
    refine wp_assert (fun _ => ⟨(by simp), (by simp)⟩) fun _ => ?_
    apply wp_ite
    · exact fun _ => .inr rfl
    · exact fun _ => receive_settled respects (goes.2 yes)
  · exact fun _ => goes.1

end

theorem resumeInput_settled (rc : Rc) (settled : Settled s) (gone : s.gone = false) :
    wp Tolerable (resumeInput host mech rc) (fun _ t => Settled t) s := by
  have ends (reason : ErrorReason) :
      wp Tolerable (do error host mech reason; pure false) (fun _ t => Settled t) s := by
    rw [wp_bind]
    exact wp_mono (error_gone respects reason s) fun _ _ gone => .inl gone
  refine wp_ite (fun _ => ?_) fun _ => wp_ite (fun _ => ends _) fun fine =>
    wp_ite (fun _ => ends _) fun _ => ?_
  · rw [wp_bind]
    exact wp_mono (call_same respects.flush s) fun _ t kept => settled.same kept.toSame
  · have running := settled.running gone (by simpa using fine)
    simp only [wp_bind, wp_update]
    refine wp_mono (call_same respects.flush _) fun _ t kept => ?_
    apply inEventInternal_settled respects
    exact ⟨kept.ioError.trans running.ioError, kept.polled.trans running.polled⟩

theorem restartInput_settled (settled : Settled s) (gone : s.gone = false)
    (decoder : QuietDecoder mech s) (input : QuietInput mech s) :
    wp Tolerable (restartInput host mech) (fun _ t => Settled t) s := by
  simp only [StreamEngine.restartInput, wp_bind]
  refine wp_assert (fun _ => ⟨(by simp), (by simp)⟩) fun _ => ?_
  refine wp_mono (processDecoded_kept respects decoder) fun rc t kept => ?_
  cases rc with
  | again =>
    rw [wp_bind]
    exact wp_mono (call_same respects.flush t) fun _ u further =>
      settled.same (trans_of Same kept.toSame further.toSame)
  | failed =>
    rw [wp_bind]
    exact wp_mono (error_gone respects _ t) fun _ _ gone => .inl gone
  | ok =>
    simp only [wp_bind, wp_engine]
    refine wp_mono (decodeFrames_same respects _ t (input.kept kept)) fun rc u same => ?_
    have whole := trans_of Same kept.toSame same
    exact resumeInput_settled respects rc (settled.same whole) (whole.gone.trans gone)

theorem zapMsgAvailable_settled (settled : Settled s) (gone : s.gone = false)
    (decoder : QuietDecoder mech s) (input : QuietInput mech s) :
    wp Tolerable (zapMsgAvailable host mech) (fun _ t => Settled t) s := by
  have outward {t : Plugged μ ω} (there : Settled t) : wp Tolerable (do
        let e ← engine
        if e.outputStopped then restartOutput host mech else pure ())
        (fun _ t => Settled t) t := by
    refine wp_ite (fun _ => ?_) fun _ => there
    exact wp_mono (frame_restartOutput respects t rfl) fun _ u kept => there.same kept.2.toSame
  simp only [StreamEngine.zapMsgAvailable, ask, wp_bind, wp_engine]
  cases s.engine.mechanism with
  | none => exact ⟨(by simp), (by simp)⟩
  | some k =>
    refine wp_ite (fun _ => ?_) fun _ => ?_
    · have inward : wp Tolerable (restartStopped host mech) (fun _ t => Settled t)
          ({ s with engine := { s.engine with mechanism := some (mech.zapMsgAvailable k).2 } }) := by
        refine wp_ite (fun _ => ?_) fun _ => settled
        exact restartInput_settled respects settled gone decoder input
      rw [wp_bind]
      exact wp_mono inward fun goes_on t there => wp_ite (fun _ => outward there) fun _ => there
    · exact wp_mono (error_gone respects _ _) fun _ _ gone => .inl gone

theorem timerEvent_settled (settled : Settled s) (id : TimerId)
    (beats : s.engine.ioError = true → id ≠ .heartbeatIvl) :
    wp Tolerable (timerEvent host mech id) (fun _ t => Settled t) s := by
  cases id with
  | heartbeatIvl =>
    have fine : s.engine.ioError = false := by simpa using mt beats (by simp)
    have beat : Frame false (do
        update (ω := ω) fun e => { e with nextMsg := .producePingMessage }
        outEvent host mech
        update (setTimer .heartbeatIvl true)) :=
      frame_set (fun _ => rfl)
        (.bind (frame_outEvent respects) fun _ => frame_update fun _ => rfl)
    exact wp_mono (beat s fine) fun _ t kept => settled.same kept.2.toSame
  | _ =>
    exact wp_mono (error_gone respects _ _) fun _ _ gone => .inl gone

theorem plug_settled (ioError : s.engine.ioError = false) :
    wp Tolerable (plug host mech) (fun _ t => Settled t) s := by
  have raw : Frame false (plugRaw host : EngineM μ ω Unit) := by
    refine frame_set (fun _ => rfl) (.bind keeps_engine fun e => ?_)
    refine .when ?_
    exact .bind (frame_call (respects.pushMsg _)) fun _ => frame_call respects.flush
  have internal : Frame false (plugInternal host : EngineM μ ω Unit) := by
    refine .bind keeps_engine fun e => .ite (fun _ => ?_) fun _ => raw
    exact frame_update fun _ => rfl
  simp only [plug, StreamEngine.inEvent, wp_bind, wp_update]
  refine wp_mono (internal _ ioError) fun _ t kept => ?_
  apply inEventInternal_settled respects
  exact ⟨kept.1, kept.2.polled⟩

end

/-! ## Runs -/

end Engine

/-- What can happen to an engine: an event, or something in its session that it takes no
    part in. -/
inductive Stimulus (ω : Type) where
  | event (event : EngineEvent)
  | world (f : ω → ω)

namespace Engine

variable {μ ω : Type} {host : Host μ ω} {mech : Mechanism μ} {s : Plugged μ ω} {a : Stimulus ω}

def react (host : Host μ ω) (mech : Mechanism μ) (s : Plugged μ ω) :
    Stimulus ω → Except Fault (Plugged μ ω)
  | .event event => (handle host mech event s).map (·.2)
  | .world f => .ok { s with world := f s.world }

/-- The poller calls for a descriptor that it has and a timer that runs. -/
def Occurs (s : Plugged μ ω) : Stimulus ω → Prop
  | .world _ => True
  | .event .inEvent | .event .outEvent => s.gone = false ∧ s.engine.polled = true
  | .event (.timerEvent id) => s.gone = false ∧ s.engine.timer id = true
  | .event .restartInput | .event .restartOutput | .event .zapMsgAvailable => s.gone = false

instance (s : Plugged μ ω) (a : Stimulus ω) : Decidable (Occurs s a) := by
  cases a with
  | event e => induction e using EngineEvent.casesOn <;> dsimp only [Occurs] <;> infer_instance
  | _ => dsimp only [Occurs]; infer_instance

/-- The heartbeat leaves an engine in the error state alone: its interval does not end, and
    the input is not taken up again with a PING in it. -/
def Spared (mech : Mechanism μ) (s : Plugged μ ω) : Stimulus ω → Prop
  | .event (.timerEvent id) => s.engine.ioError = true → id ≠ .heartbeatIvl
  | .event .restartInput | .event .zapMsgAvailable => QuietDecoder mech s ∧ QuietInput mech s
  | .event .inEvent | .event .outEvent | .event .restartOutput | .world _ => True

theorem handle_settled (respects : host.Respects Tolerable) {event : EngineEvent}
    (settled : Settled s) (occurs : Occurs s (.event event))
    (spared : Spared mech s (.event event)) :
    wp Tolerable (handle host mech event) (fun _ t => Settled t) s := by
  cases event with
  | inEvent =>
    have running : Running s := by
      refine settled.running occurs.1 ?_
      have polled := settled.resolve_left (by simp [occurs.1])
      simpa [occurs.2] using polled
    simp only [StreamEngine.handle, StreamEngine.inEvent, wp_bind]
    exact inEventInternal_settled respects running
  | outEvent =>
    have polled := settled.resolve_left (by simp [occurs.1])
    have fine : s.engine.ioError = false := by simpa [occurs.2] using polled
    exact wp_mono (frame_outEvent respects s fine) fun _ t kept => settled.same kept.2.toSame
  | restartInput =>
    simp only [StreamEngine.handle, wp_bind]
    exact restartInput_settled respects settled occurs spared.1 spared.2
  | restartOutput =>
    exact wp_mono (frame_restartOutput respects s rfl) fun _ t kept =>
      settled.same kept.2.toSame
  | zapMsgAvailable => exact zapMsgAvailable_settled respects settled occurs spared.1 spared.2
  | timerEvent id => exact timerEvent_settled respects settled id spared

theorem react_settled (respects : host.Respects Tolerable) {t : Plugged μ ω} (settled : Settled s)
    (occurs : Occurs s a) (spared : Spared mech s a)
    (taken : react host mech s a = .ok t) : Settled t := by
  cases a with
  | event event =>
    have holds := handle_settled respects settled occurs spared
    cases run : handle host mech event s with
    | error e => simp [react, run, Except.map] at taken
    | ok result =>
      obtain rfl : result.2 = t := by simpa [react, run, Except.map] using taken
      have next := wp_ok holds run
      exact next
  | world f =>
    cases taken
    exact settled

/-- From the plug on, an engine whose heartbeat spares the error state runs no I/O in it. -/
theorem no_io_after_an_error (respects : host.Respects Tolerable) (options : EngineOptions)
    (hasHandshakeStage : Bool) (w : ω) :
    (∀ e, plug host mech ⟨new options hasHandshakeStage, w, false⟩ = .error e → Tolerable e) ∧
    ∀ begun s a, plug host mech ⟨new options hasHandshakeStage, w, false⟩ = .ok ((), begun) →
      Reaches (react host mech) (fun s a => Occurs s a ∧ Spared mech s a) begun s →
      Occurs s a → Spared mech s a → ∀ e, react host mech s a = .error e → Tolerable e := by
  have plugged : wp Tolerable (plug host mech) (fun _ t => Settled t)
      ⟨new options hasHandshakeStage, w, false⟩ := plug_settled respects rfl
  refine ⟨fun e => wp_error plugged, fun begun s a starts reached occurs spared e failed => ?_⟩
  have base := wp_ok plugged starts
  have settled : Settled s := reached.invariant base fun s a t there ok taken =>
    react_settled respects there ok.1 ok.2 taken
  cases a with
  | event event =>
    have holds := handle_settled respects settled occurs spared
    cases run : handle host mech event s with
    | error e' =>
      obtain rfl : e' = e := by simpa [react, run, Except.map] using failed
      exact wp_error holds run
    | ok result => simp [react, run, Except.map] at failed
  | world f => simp [react] at failed

theorem tolerable_of_pipe (e : Fault) (ofPipe : e.ofPipe = true) : Tolerable e := by
  constructor <;> rintro rfl <;> cases ofPipe

def polls : Stimulus ω → Bool
  | .event .inEvent | .event .outEvent => true
  | _ => false

theorem spared_of_polls (poller : polls a = true) : Spared mech s a := by
  match a with
  | .event .inEvent | .event .outEvent => trivial

/-- A session with room for one message and a peer that sends `frames` after its READY. -/
def narrowSession (frames : List Decoded) : Session (NullMechanism × ZapPipe) :=
  { (Session.new { rcvhwm := 1 } : Session (NullMechanism × ZapPipe)) with
    wire :=
      { greetings := [.v3_1 (.new {} [], { handler := false })]
        reads := [.data [.frame { flags := MsgFlag.command, data := readyCommand }], .data frames]
        writes := [some 10, some 100] } }

def beating (frames : List Decoded) :
    Plugged (NullMechanism × ZapPipe) (Session (NullMechanism × ZapPipe)) :=
  ⟨new { heartbeatInterval := 1000 } true, narrowSession frames, false⟩

def brokenConnection : List (Stimulus (Session (NullMechanism × ZapPipe))) :=
  [.event .outEvent, .event .outEvent, .event .inEvent, .event .inEvent]

def readOne {μ : Type} (s : Session μ) : Session μ :=
  { s with pair := ((s.pair.step (.second, .read)).bind fun pair =>
      pair.step (.first, .deliver)).toOption.getD s.pair }

theorem no_io_after_an_error_waiting :
    ∃ b s, plug Session.host .null (beating [.frame { data := [1] }, .frame { data := [2] }]) =
        .ok b ∧
      Reaches (react Session.host .null) (fun s a => Occurs s a ∧ Spared .null s a) b.2 s ∧
      s.engine.ioError = true ∧ Occurs s (.event .restartInput) ∧
      ∀ e, react Session.host .null s (.event .restartInput) = .error e → Tolerable e := by
  have respects : (Session.host : Host (NullMechanism × ZapPipe) _).Respects Tolerable :=
    Session.host_respects tolerable_of_pipe ⟨nofun, nofun⟩
  obtain ⟨b, s, begun, reached, ioError, stays, decoded, empty⟩ := exists_reaches_ok
    (plug Session.host .null (beating [.frame { data := [1] }, .frame { data := [2] }])) (·.2)
    (react Session.host .null) (fun s a => Occurs s a ∧ polls a = true) brokenConnection
    (fun s => s.engine.ioError = true ∧ s.gone = false ∧ s.engine.undecoded = false ∧
      s.engine.input = [])
    (by decide +kernel)
  have run := reached.mono fun s a ok =>
    (⟨ok.1, spared_of_polls ok.2⟩ : Occurs s a ∧ Spared Mechanism.null s a)
  have spared : Spared .null s (.event .restartInput) := by
    constructor
    · intro _ undecoded
      simp [decoded] at undecoded
    · intro _ m mem
      simp [empty] at mem
  exact ⟨b, s, begun, run, ioError, stays,
    (no_io_after_an_error respects _ _ _).2 b.2 s _ begun run stays spared⟩

/-- The heartbeat asserts in the error state, whether its interval ends or a PING is still
    in the input. -/
theorem heartbeat_runs_after_an_error :
    (∃ b s, plug Session.host .null (beating [.frame { data := [1] }, .frame { data := [2] }]) =
        .ok b ∧
      Reaches (react Session.host .null) Occurs b.2 s ∧ s.engine.ioError = true ∧
      Occurs s (.event (.timerEvent .heartbeatIvl)) ∧
      react Session.host .null s (.event (.timerEvent .heartbeatIvl)) =
        .error (.assertion .outEvent)) ∧
    ∃ b s, plug Session.host .null (beating [.frame { data := [1] }, .frame { data := [2] },
        .frame { flags := MsgFlag.command, data := pingCmd ++ [0, 0] }]) = .ok b ∧
      Reaches (react Session.host .null) Occurs b.2 s ∧ s.engine.ioError = true ∧
      Occurs s (.event .restartInput) ∧
      react Session.host .null s (.event .restartInput) = .error (.assertion .outEvent) := by
  constructor
  · exact exists_reaches_ok _ _ _ _ brokenConnection _ (by decide +kernel)
  · exact exists_reaches_ok _ _ _ _ (brokenConnection ++ [.world readOne]) _ (by decide +kernel)

end Engine

end Zmq
