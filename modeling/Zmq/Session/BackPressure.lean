import Zmq.Mechanism.Null
import Zmq.Session.Faults
import Zmq.Session.Link

/-! # Back-pressure between a session and its engine

A session whose pipe is full refuses a message, and the engine stops its input until the
pipe is written to again. The flag of the pipe and the flag of the engine have to agree,
and the pipe is the one that stays when the engine is replaced. They do as long as no engine
is attached to a pipe that is full, or has a pipe that fills up before its handshake is ended.
-/

namespace Zmq

open Lib

namespace Session

variable {μ α : Type} {s : Session μ}

def Live (s : Session μ) : Prop :=
  s.hasPipe = true ∧ (s.pair.pipe .first).state = .active
  deriving Decidable

def Stopped (s : Session μ) : Prop := s.Live ∧ (s.pair.pipe .first).outActive = false

def Room (s : Session μ) : Prop :=
  s.Live → (s.pair.pipe .first).outActive = true ∧ (s.pair.pipe .first).checkHwm = true
  deriving Decidable

theorem Room.not_stopped (room : s.Room) : ¬ s.Stopped := by
  rintro ⟨live, stopped⟩
  simp [(room live).1] at stopped

structure Onward (s t : Session μ) : Prop where
  stopped : t.Stopped → s.Stopped
  room : s.Room → t.Room

instance : IsPreorder (Session μ) Onward where
  refl _ := ⟨id, id⟩
  trans _ _ _ first second := ⟨first.stopped ∘ second.stopped, second.room ∘ first.room⟩

theorem Onward.of_aside {pair : Pair} (aside : s.pair.Aside .first pair) :
    Onward s { s with pair := pair } := by
  constructor
  · rintro ⟨⟨has, active⟩, stopped⟩
    exact ⟨⟨has, aside.active active⟩, (aside.steady active).outActive ▸ stopped⟩
  · rintro room ⟨has, active⟩
    obtain ⟨outActive, checkHwm⟩ := room ⟨has, aside.active active⟩
    exact ⟨(aside.steady active).outActive.trans outActive,
      (aside.steady active).checkHwm.trans checkHwm⟩

/-- All but the assertions of `restart_input`. -/
abbrev Tolerated (e : Fault) : Prop := e ≠ .assertion .restartInput

theorem tolerated_of_pipe (e : Fault) (ofPipe : e.ofPipe = true) : Tolerated e := by
  rintro rfl
  cases ofPipe

abbrev Steady (x : SessionM μ α) : Prop := Keeps Tolerated (fun _ => True) Onward x

theorem steady_modify {f : Session μ → Session μ} (onward : ∀ s, Onward s (f s)) :
    Steady (modify f : SessionM μ PUnit) :=
  .modify fun s _ => ⟨trivial, onward s⟩

theorem steady_pipe {x : Pair → Except Fault (α × Pair)}
    (meets : ∀ pair, Meets (fun r => pair.Aside .first r.2) (x pair)) :
    Steady (pipe x : SessionM μ α) := by
  intro s _
  exact wp_pipe tolerated_of_pipe ((meets s.pair).mono fun _ aside => ⟨trivial, .of_aside aside⟩)

theorem steady_pipeDo {x : Pair → Except Fault Pair}
    (meets : ∀ pair, Meets (pair.Aside .first) (x pair)) : Steady (pipeDo x : SessionM μ Unit) :=
  .bind .get fun _ => .ite
    (fun _ => steady_pipe fun pair => (meets pair).map fun _ aside => aside) fun _ => .pure _

theorem steady_pullMsg : Steady (pullMsg : SessionM μ (Option Msg)) := by
  refine .bind .get fun s => .when ?_
  refine .bind (steady_pipe fun pair => pair.read_meets .first) fun pulled => ?_
  cases pulled with
  | none => exact .pure _
  | some m => exact .bind (steady_modify fun _ => ⟨id, id⟩) fun _ => .pure _

theorem steady_flush : Steady (flush : SessionM μ Unit) :=
  steady_pipeDo fun pair => (pair.flush_meets .first).mono fun _ same => .of_pipe same

theorem steady_checkRead : Steady (checkRead : SessionM μ Unit) :=
  steady_pipeDo fun pair => (pair.checkRead_meets .first).map fun _ aside => aside

theorem steady_terminatePipe (delay : Bool) : Steady (terminatePipe delay : SessionM μ Unit) :=
  .bind .get fun _ => steady_pipeDo fun pair =>
    (pair.terminate_meets .first _ _).mono fun _ ends => .of_closed ends.1 ends.2

theorem attached_flows (hwms : End → Int) (conflate : End → Bool) (e : End) :
    ((Pair.attached hwms conflate).pipe e).outActive = true ∧
      ((Pair.attached hwms conflate).pipe e).checkHwm = true := by
  simp only [Pair.attached, Pair.pipepair, Pipe.new, Pipe.checkHwm]
  by_cases positive : 0 < hwms e
  · simp [positive]
  · simp [positive]

theorem steady_engineReady : Steady (engineReady : SessionM μ Unit) := by
  apply steady_modify
  intro s
  split
  · constructor
    · rintro ⟨-, stopped⟩
      simp [attached_flows] at stopped
    · exact fun _ _ => attached_flows _ _ _
  · exact refl_of Onward s

theorem steady_nextGreeting : Steady (nextGreeting : SessionM μ (Greeting μ)) := by
  intro s _
  simp only [nextGreeting, wp]
  cases s.wire.greetings <;> exact ⟨trivial, id, id⟩

theorem steady_nextRead : Steady (nextRead : SessionM μ Received) := by
  intro s _
  simp only [nextRead, wp]
  cases s.wire.reads <;> exact ⟨trivial, id, id⟩

theorem steady_nextWrite (n : Nat) : Steady (nextWrite n : SessionM μ (Option Nat)) := by
  intro s _
  simp only [nextWrite, wp]
  cases s.wire.writes <;> exact ⟨trivial, id, id⟩

/-- The message that a live pipe refuses is the one that stops the flow. -/
structure Pushed (s : Session μ) (m : Msg) (rc : Rc) (t : Session μ) : Prop where
  accepted : rc = .ok → t.Stopped → s.Stopped
  room : s.Room → ¬ t.Stopped
  refused : rc ≠ .ok → s.Room → t.Room
  routingId : m.isRoutingId = true → s.Room → t.Room

theorem pushMsg_pushed (m : Msg) (s : Session μ) :
    wp Tolerated (pushMsg m) (fun r t => s.Pushed m r.1 t) s := by
  have still (rc : Rc) : s.Pushed m rc s := ⟨fun _ => id, Room.not_stopped, fun _ => id, fun _ => id⟩
  refine wp_ite (fun _ => still _) fun _ => wp_ite (fun has => ?_) fun _ => still _
  rw [wp_bind]
  refine wp_pipe tolerated_of_pipe ((s.pair.write_meets .first m _).mono fun r wrote => ?_)
  have live : ({ s with pair := r.2 } : Session μ).Live → s.Live := by
    rintro ⟨has, active⟩
    exact ⟨has, wrote.state.symm.trans active⟩
  have flows (written : r.1 = true) : ¬ ({ s with pair := r.2 } : Session μ).Stopped := by
    rintro ⟨-, stopped⟩
    have outActive := wrote.outActive.mpr ⟨(wrote.accepted.mp written).2.1, fun _ => written⟩
    simp [outActive] at stopped
  have takes (room : s.Room) (here : ({ s with pair := r.2 } : Session μ).Live) : r.1 = true := by
    obtain ⟨outActive, checkHwm⟩ := room (live here)
    exact wrote.accepted.mpr ⟨(live here).2, outActive, checkHwm⟩
  apply wp_ite
  · intro written
    constructor
    case accepted => exact fun _ stopped => absurd stopped (flows written)
    case room => exact fun _ => flows written
    case refused => exact fun refused => absurd rfl refused
    case routingId =>
      intro routing room here
      obtain ⟨outActive, checkHwm⟩ := room (live here)
      exact ⟨wrote.outActive.mpr ⟨outActive, fun _ => written⟩,
        (wrote.checkHwm routing).trans checkHwm⟩
  · intro refused
    have closed (room : s.Room) : ¬ ({ s with pair := r.2 } : Session μ).Live :=
      fun here => refused (takes room here)
    constructor
    case accepted => nofun
    case room => exact fun room stopped => closed room stopped.1
    case refused => exact fun _ room here => absurd here (closed room)
    case routingId => exact fun _ room here => absurd here (closed room)

end Session

namespace Engine

variable {μ α : Type} {mech : Mechanism μ} {t : Plugged μ (Session μ)} {f : Engine μ → Engine μ}
  {x : SessionM μ α} {site : AssertSite} {rc : Rc} {b : Bool}

open Session (Tolerated Steady)

/-- Between two statements of an event: an engine that is still shaking hands has room, so
    that the messages at the end of the handshake will be taken. -/
structure InStep (s : Plugged μ (Session μ)) : Prop where
  next : s.engine.nextMsg = .nextHandshakeCommand → s.engine.processMsg = .processHandshakeCommand
  room : s.engine.processMsg = .processHandshakeCommand → s.world.Room

def past (e : Engine μ) : Bool := e.decoder.isSome && !e.handshaking

structure Along (s t : Plugged μ (Session μ)) : Prop where
  stopped : t.world.Stopped → s.world.Stopped
  asks : t.engine.processMsg = .processHandshakeCommand →
    s.engine.processMsg = .processHandshakeCommand
  inputStopped : t.engine.inputStopped = s.engine.inputStopped
  past : t.engine.past = s.engine.past
  gone : t.gone = s.gone

instance : IsPreorder (Plugged μ (Session μ)) Along where
  refl _ := ⟨id, id, rfl, rfl, rfl⟩
  trans _ _ _ first second := ⟨first.stopped ∘ second.stopped, first.asks ∘ second.asks,
    second.inputStopped.trans first.inputStopped, second.past.trans first.past,
    second.gone.trans first.gone⟩

/-- Programs that keep in step; with `asking`, programs of the handshake. -/
abbrev Flows (asking : Bool) (x : EngineM μ (Session μ) α) : Prop :=
  Keeps Tolerated (fun s => InStep s ∧
    (asking = true → s.engine.processMsg = .processHandshakeCommand)) Along x

open StreamEngine (keeps_engine keeps_check keeps_onlyIf keeps_pullMsgFromSession error_gone)

section Flows

variable {asking : Bool}

theorem flows_update
    (rest : ∀ e, ((f e).processMsg, (f e).inputStopped, (f e).past) =
      (e.processMsg, e.inputStopped, e.past))
    (next : ∀ e, (f e).nextMsg = .nextHandshakeCommand → e.nextMsg = .nextHandshakeCommand) :
    Flows asking (update f : EngineM μ (Session μ) Unit) := by
  rintro s ⟨here, asks⟩
  simp only [Prod.mk.injEq] at rest
  obtain ⟨process, input, past⟩ := rest s.engine
  refine ⟨⟨⟨fun told => ?_, fun told => here.room (process.symm.trans told)⟩, ?_⟩, ?_⟩
  · exact process.trans (here.next (next _ told))
  · exact fun told => process.trans (asks told)
  · exact ⟨id, process.symm.trans, input, past, rfl⟩

theorem flows_set {x : Unit → EngineM μ (Session μ) α}
    (rest : ∀ e, (((f e).processMsg, (f e).inputStopped, (f e).past), (f e).nextMsg) =
      ((e.processMsg, e.inputStopped, e.past), e.nextMsg)) (flows : Flows asking (x ())) :
    Flows asking (update f >>= x) := by
  refine .bind (flows_update (fun e => congrArg Prod.fst (rest e)) fun e told => ?_) fun _ => flows
  exact (congrArg Prod.snd (rest e)).symm.trans told

theorem call_steady (steady : Steady x) (s : Plugged μ (Session μ)) :
    wp Tolerated (call x) (fun _ t => t.engine = s.engine ∧ t.gone = s.gone ∧
      s.world.Onward t.world) s := by
  rw [call, wp_zoom]
  apply wp_mono (steady s.world trivial)
  intro a w onward
  exact ⟨rfl, rfl, onward.2⟩

theorem onlyIf_steady (b : Bool) {x : SessionM μ Unit} (steady : Steady x)
    (s : Plugged μ (Session μ)) :
    wp Tolerated (onlyIf b (call x)) (fun _ t => t.engine = s.engine ∧ t.gone = s.gone ∧
      s.world.Onward t.world) s :=
  wp_ite (fun _ => call_steady steady s) fun _ => ⟨rfl, rfl, refl_of _ _⟩

theorem flows_call (steady : Steady x) : Flows asking (call x : EngineM μ (Session μ) α) := by
  rintro s ⟨here, asks⟩
  apply wp_mono (call_steady steady s)
  rintro a t ⟨engine, gone, onward⟩
  refine ⟨⟨⟨engine ▸ here.next, fun told => ?_⟩, engine ▸ asks⟩, ?_⟩
  · exact onward.room (here.room (engine ▸ told))
  · exact ⟨onward.stopped, engine ▸ id, by rw [engine], by rw [engine], gone⟩

theorem flows_ask {f : μ → α × μ} (tolerated : Tolerated (.assertion site)) :
    Flows asking (ask site f : EngineM μ (Session μ) α) := by
  refine .bind keeps_engine fun e => ?_
  cases e.mechanism with
  | none => exact .throw tolerated
  | some m => exact flows_set (fun _ => rfl) (.pure _)

theorem pushIf_pushed (wanted : Bool) (m : Msg) (s : Plugged μ (Session μ)) :
    wp Tolerated (pushIf Session.host wanted m) (fun known t => t.engine = s.engine ∧
      t.gone = s.gone ∧ ∃ rc, (known = true ↔ rc = .ok) ∧ s.world.Pushed m rc t.world) s := by
  refine wp_ite (fun _ => ?_) fun _ => ?_
  · simp only [call, wp_bind, wp_zoom, wp_pure]
    apply wp_mono (Session.pushMsg_pushed m s.world)
    intro r t pushed
    exact ⟨trivial, trivial, r.1, by simp, pushed⟩
  · exact ⟨rfl, rfl, .ok, by simp, fun _ => id, Session.Room.not_stopped, (by simp), fun _ => id⟩

theorem flows_pushRoutingId (wanted : Bool) {m : Msg} (routing : m.isRoutingId = true) :
    Flows true (pushIf Session.host wanted m : EngineM μ (Session μ) Bool) := by
  rintro s ⟨here, asks⟩
  apply wp_mono (pushIf_pushed wanted m s)
  rintro known t ⟨engine, gone, rc, -, pushed⟩
  have room := pushed.routingId routing (here.room (asks rfl))
  refine ⟨⟨⟨engine ▸ here.next, fun _ => room⟩, engine ▸ asks⟩, ?_⟩
  exact ⟨fun stopped => absurd stopped room.not_stopped, engine ▸ id, by rw [engine],
    by rw [engine], gone⟩

end Flows

/-! ## The handshake and the output -/

variable {s : Plugged μ (Session μ)}

theorem mechanismReady_flows (here : InStep s)
    (asks : s.engine.processMsg = .processHandshakeCommand) :
    wp Tolerated (mechanismReady Session.host mech) (fun _ t => InStep t ∧ Along s t) s := by
  have timed : Flows true (update fun e => if 0 < e.options.heartbeatInterval then
      e.setTimer .heartbeatIvl true else e : EngineM μ (Session μ) Unit) :=
    flows_update (fun _ => by split <;> rfl) fun _ => by split <;> exact id
  simp only [mechanismReady, wp_bind]
  refine wp_mono (timed s ⟨here, fun _ => asks⟩) fun _ t first => ?_
  simp only [wp_engine]
  have ready : Flows true (onlyIf t.engine.hasHandshakeStage
      (call Session.host.engineReady : EngineM μ (Session μ) Unit)) :=
    keeps_onlyIf (flows_call Session.steady_engineReady)
  refine wp_mono (ready t first.1) fun _ u second => ?_
  refine wp_mono (flows_pushRoutingId _ (by simp [Msg.isRoutingId]) u second.1) fun known v third => ?_
  have along := trans_of Along (trans_of Along first.2 second.2) third.2
  refine wp_ite (fun _ => ?_) fun _ => ⟨third.1.1, along⟩
  rw [wp_bind]
  refine wp_mono (pushIf_pushed _ _ v) fun notified w last => ?_
  obtain ⟨engine, gone, rc, taken, pushed⟩ := last
  have room := third.1.1.room (third.1.2 rfl)
  have flowing := pushed.room room
  have onward : Along v w := ⟨fun stopped => absurd stopped flowing, engine ▸ id, by rw [engine],
    by rw [engine], gone⟩
  refine wp_ite (fun _ => ?_) fun refused => ?_
  · rw [wp_bind]
    refine wp_mono (onlyIf_steady _ Session.steady_flush w) fun _ x done => ?_
    obtain ⟨engine', gone', onward'⟩ := done
    refine ⟨⟨(by simp), (by simp)⟩, trans_of Along along (trans_of Along onward ?_)⟩
    exact ⟨onward'.stopped, (by simp), by simp [engine', setTimer],
      by simp [engine', setTimer, past], gone'⟩
  · have there : w.world.Room := pushed.refused (fun ok => refused (taken.mpr ok)) room
    exact ⟨⟨engine ▸ third.1.1.next, fun _ => there⟩, trans_of Along along onward⟩

theorem flows_pullMsgFromSession :
    Flows false (pullMsgFromSession Session.host : EngineM μ (Session μ) (Rc × Msg)) :=
  keeps_pullMsgFromSession (flows_call Session.steady_pullMsg)

theorem flows_pullAndEncode : Flows false (pullAndEncode Session.host mech) := by
  refine .bind keeps_engine fun e => keeps_check nofun ?_
  refine .bind flows_pullMsgFromSession fun result => ?_
  exact .when (flows_ask nofun)

theorem nextHandshakeCommand_flows (here : InStep s)
    (asks : s.engine.processMsg = .processHandshakeCommand) :
    wp Tolerated (nextHandshakeCommand Session.host mech) (fun _ t => InStep t ∧ Along s t) s := by
  have status : Flows true (ask .nextHandshakeCommand fun m => (mech.status m, m) :
      EngineM μ (Session μ) Status) := flows_ask (by simp)
  simp only [nextHandshakeCommand, wp_bind]
  refine wp_mono (status s ⟨here, fun _ => asks⟩) fun status t first => ?_
  cases status with
  | ready =>
    rw [wp_bind]
    refine wp_mono (mechanismReady_flows first.1.1 (first.1.2 rfl)) fun _ u second => ?_
    refine wp_mono (flows_pullAndEncode u ⟨second.1, (by simp)⟩) fun _ v third => ?_
    exact ⟨third.1.1, trans_of Along first.2 (trans_of Along second.2 third.2)⟩
  | error => exact ⟨first.1.1, first.2⟩
  | handshaking =>
    have rest : Flows true (do
        let r ← ask .nextHandshakeCommand mech.nextHandshakeCommand
        if r.1 = .ok then pure (r.1, { r.2 with flags := r.2.flags ||| MsgFlag.command })
        else pure r : EngineM μ (Session μ) (Rc × Msg)) :=
      .bind (flows_ask (by simp)) fun _ => .when (.pure _)
    refine wp_mono (rest t first.1) fun _ u second => ?_
    exact ⟨second.1.1, trans_of Along first.2 second.2⟩

theorem flows_nextMsgCall : Flows false (nextMsgCall Session.host mech) := by
  rintro s ⟨here, -⟩
  have run {x : EngineM μ (Session μ) (Rc × Msg)} (flows : Flows false x) :
      wp Tolerated x (fun _ t => (InStep t ∧ (false = true →
        t.engine.processMsg = .processHandshakeCommand)) ∧ Along s t) s := flows s ⟨here, (by simp)⟩
  simp only [nextMsgCall, wp_bind, wp_engine]
  cases next : s.engine.nextMsg with
  | routingIdMsg =>
    exact run (.bind keeps_engine fun e =>
      .bind (flows_update (fun _ => rfl) fun _ => by simp) fun _ => .pure _)
  | nextHandshakeCommand =>
    refine wp_mono (nextHandshakeCommand_flows here (here.next next)) fun _ t done => ?_
    exact ⟨⟨done.1, (by simp)⟩, done.2⟩
  | pullMsgFromSession => exact run flows_pullMsgFromSession
  | pullAndEncode => exact run flows_pullAndEncode
  | producePingMessage =>
    refine run (.bind keeps_engine fun e => .bind (flows_ask (by simp)) fun result => ?_)
    refine .bind (flows_update (fun _ => rfl) fun _ => by simp) fun _ => ?_
    exact flows_set (fun _ => by split <;> rfl) (.pure _)
  | producePongMessage =>
    refine run (.bind keeps_engine fun e => .bind (flows_ask (by simp)) fun result => ?_)
    exact .bind (flows_update (fun _ => rfl) fun _ => by simp) fun _ => .pure _
  | own f => exact f.elim

theorem flows_outputs : StreamEngine.Outputs Session.host Tolerated
    (fun s : Plugged μ (Session μ) => InStep s ∧
      (false = true → s.engine.processMsg = .processHandshakeCommand)) Along where
  outsize _ := flows_update (fun _ => rfl) fun _ => id
  outputStopped _ := flows_update (fun _ => rfl) fun _ => id
  write n := flows_call (Session.steady_nextWrite n)
  encode := nofun
  encoder := nofun

theorem flows_outEvent : Flows false (outEvent Session.host mech) :=
  flows_outputs.outEvent flows_nextMsgCall nofun

theorem flows_restartOutput : Flows false (restartOutput Session.host mech) :=
  flows_outputs.restartOutput flows_nextMsgCall nofun

/-! ## The input -/

/-- What processing a message leaves: a message that was taken has not stopped the flow. -/
structure Processed (s : Plugged μ (Session μ)) (rc : Rc) (t : Plugged μ (Session μ)) : Prop where
  inStep : InStep t
  flowing : rc = .ok → ¬ t.world.Stopped
  inputStopped : t.engine.inputStopped = s.engine.inputStopped
  past : t.engine.past = s.engine.past
  gone : t.gone = s.gone

theorem Processed.trans {u : Plugged μ (Session μ)} (processed : Processed t rc u)
    (along : Along s t) : Processed s rc u :=
  ⟨processed.inStep, processed.flowing, processed.inputStopped.trans along.inputStopped,
    processed.past.trans along.past, processed.gone.trans along.gone⟩

theorem Along.processed (along : Along s t)
    (flowing : ¬ s.world.Stopped) (there : InStep t) : Processed s rc t :=
  ⟨there, fun _ stopped => flowing (along.stopped stopped), along.inputStopped, along.past,
    along.gone⟩

theorem InStep.idle (here : InStep s) (done : s.engine.processMsg ≠ .processHandshakeCommand) :
    s.engine.nextMsg ≠ .nextHandshakeCommand :=
  fun next => done (here.next next)

theorem InStep.of_done (done : s.engine.processMsg ≠ .processHandshakeCommand)
    (idle : s.engine.nextMsg ≠ .nextHandshakeCommand) : InStep s :=
  ⟨fun next => absurd next idle, fun asks => absurd asks done⟩

section Processing

variable {s : Plugged μ (Session μ)} (here : InStep s) (flowing : ¬ s.world.Stopped) (m : Msg)
include here flowing

theorem processHandshakeCommand_processed (asks : s.engine.processMsg = .processHandshakeCommand) :
    wp Tolerated (processHandshakeCommand Session.host mech m) (fun r t => Processed s r.1 t) s := by
  have answered : Flows true (ask .processHandshakeCommand (mech.processHandshakeCommand · m) :
      EngineM μ (Session μ) (Rc × Msg)) := flows_ask (by simp)
  have status : Flows true (ask .processHandshakeCommand fun m => (mech.status m, m) :
      EngineM μ (Session μ) Status) := flows_ask (by simp)
  simp only [StreamEngine.processHandshakeCommand, wp_bind]
  refine wp_mono (answered s ⟨here, fun _ => asks⟩) fun result t first => ?_
  refine wp_ite (fun _ => ?_) fun _ => first.2.processed flowing first.1.1
  rw [wp_bind]
  refine wp_mono (status t first.1) fun status u second => ?_
  have along := trans_of Along first.2 second.2
  refine wp_ite (fun _ => along.processed flowing second.1.1) fun _ => ?_
  have ready : wp Tolerated (onlyIf (status == .ready) (mechanismReady Session.host mech))
      (fun _ t => InStep t ∧ Along u t) u :=
    wp_ite (fun _ => mechanismReady_flows second.1.1 (second.1.2 rfl))
      fun _ => ⟨second.1.1, refl_of Along u⟩
  simp only [wp_bind]
  refine wp_mono ready fun _ v third => ?_
  have restart : Flows false (onlyIf v.engine.outputStopped (restartOutput Session.host mech)) :=
    keeps_onlyIf flows_restartOutput
  simp only [wp_engine]
  refine wp_mono (restart v ⟨third.1, (by simp)⟩) fun _ w last => ?_
  exact (trans_of Along along (trans_of Along third.2 last.2)).processed flowing last.1.1

section

variable (done : s.engine.processMsg ≠ .processHandshakeCommand)
include done

theorem pushMsgToSession_processed :
    wp Tolerated (call (Session.host.pushMsg m)) (fun r t => Processed s r.1 t ∧
      t.engine = s.engine) s := by
  rw [call, wp_zoom]
  apply wp_mono (Session.pushMsg_pushed m s.world)
  intro r t pushed
  refine ⟨⟨.of_done done (here.idle done), fun ok stopped => ?_, rfl, rfl, rfl⟩, rfl⟩
  exact flowing (pushed.accepted ok stopped)

theorem processRoutingIdMsg_processed :
    wp Tolerated (processRoutingIdMsg Session.host m) (fun r t => Processed s r.1 t) s := by
  simp only [processRoutingIdMsg, wp_bind, wp_engine]
  refine wp_mono (pushIf_pushed _ _ s) fun known t first => wp_assert (by simp) fun ok => ?_
  obtain ⟨engine, gone, rc, taken, pushed⟩ := first
  refine wp_mono (pushIf_pushed _ _ t) fun subscribed u second => wp_assert (by simp) fun ok' => ?_
  obtain ⟨engine', gone', rc', taken', pushed'⟩ := second
  have idle := here.idle done
  refine ⟨.of_done (by simp) ?_, fun _ stopped => ?_, ?_, ?_, gone'.trans gone⟩
  · simpa [engine', engine] using idle
  · exact flowing (pushed.accepted (taken.mp ok) (pushed'.accepted (taken'.mp ok') stopped))
  · simp [engine', engine]
  · simp [engine', engine, past]

theorem decodeAndPush_processed :
    wp Tolerated (decodeAndPush Session.host mech m) (fun r t => Processed s r.1 t) s := by
  have decoded : Flows false (ask .decodeAndPush (mech.decode · m) :
      EngineM μ (Session μ) (Rc × Msg)) := flows_ask (by simp)
  have command (m : Msg) : Flows false (processCommandMessage Session.host mech m) := by
    refine .when (.bind ?_ fun _ => .pure _)
    refine .when (.ite (fun _ => .throw (by simp)) fun _ => ?_)
    exact flows_set (fun _ => by split <;> rfl)
      (.bind (flows_update (fun _ => rfl) fun _ => by simp) fun _ => flows_outEvent)
  simp only [decodeAndPush, wp_bind]
  refine wp_mono (decoded s ⟨here, (by simp)⟩) fun result t first => ?_
  refine wp_ite (fun _ => ?_) fun _ => first.2.processed flowing first.1.1
  have heard : Flows false (do
      update (ω := Session μ) fun e =>
        (e.setTimer .heartbeatTimeout false).setTimer .heartbeatTtl false
      processCommandMessage Session.host mech result.2) :=
    flows_set (fun _ => rfl) (command _)
  have pass := heard t first.1
  rw [wp_bind] at pass
  simp only [wp_bind]
  refine wp_mono pass fun _ u second => wp_mono second fun m v third => ?_
  have along := trans_of Along first.2 third.2
  have done' : v.engine.processMsg ≠ .processHandshakeCommand := fun asks => done (along.asks asks)
  refine wp_mono (pushMsgToSession_processed third.1.1
    (fun stopped => flowing (along.stopped stopped)) m done') fun r w last => ?_
  obtain ⟨processed, engine⟩ := last
  refine wp_ite (fun refused => ?_) fun _ => ?_
  · refine Processed.trans ⟨.of_done (by simp) ?_, fun ok => ?_, processed.inputStopped,
      processed.past, processed.gone⟩ along
    · simpa [engine] using third.1.1.idle done'
    · have again : r.1 = .again := by simpa using refused
      exact absurd (ok.symm.trans again) (by simp)
  · exact processed.trans along

theorem pushOneThenDecodeAndPush_processed :
    wp Tolerated (pushOneThenDecodeAndPush Session.host m) (fun r t => Processed s r.1 t) s := by
  simp only [StreamEngine.pushOneThenDecodeAndPush, wp_bind]
  refine wp_mono (pushMsgToSession_processed here flowing m done) fun r t first => ?_
  obtain ⟨processed, engine⟩ := first
  refine wp_ite (fun _ => ?_) fun _ => processed
  refine { processed with inStep := .of_done (by simp) ?_ }
  simpa [engine] using here.idle done

theorem writeCredential_processed :
    wp Tolerated (writeCredential Session.host mech m) (fun r t => Processed s r.1 t) s := by
  have credential : Flows false (ask .writeCredential fun k => (mech.getUserId k, k) :
      EngineM μ (Session μ) (List UInt8)) := flows_ask (by simp)
  simp only [StreamEngine.writeCredential, wp_bind]
  refine wp_mono (credential s ⟨here, (by simp)⟩) fun credential t first => ?_
  refine wp_mono (pushIf_pushed _ _ t) fun known u second => ?_
  obtain ⟨engine, gone, rc, taken, pushed⟩ := second
  have done' : u.engine.processMsg ≠ .processHandshakeCommand := by
    rw [engine]
    exact fun asks => done (first.2.asks asks)
  have idle : u.engine.nextMsg ≠ .nextHandshakeCommand := by
    rw [engine] at done' ⊢
    exact first.1.1.idle done'
  have onward : u.engine.inputStopped = s.engine.inputStopped ∧ u.engine.past = s.engine.past := by
    rw [engine, first.2.inputStopped, first.2.past]
    exact ⟨rfl, rfl⟩
  refine wp_ite (fun ok => ?_) fun _ => ?_
  · simp only [wp_bind, wp_update]
    have flowing' : ¬ u.world.Stopped := fun stopped =>
      flowing (first.2.stopped (pushed.accepted (taken.mp ok) stopped))
    have next : InStep ({ u with engine := { u.engine with processMsg := .decodeAndPush } } :
        Plugged μ (Session μ)) := .of_done (by simp) idle
    refine wp_mono (decodeAndPush_processed next flowing' m (by simp)) fun r v processed => ?_
    exact ⟨processed.inStep, processed.flowing, processed.inputStopped.trans onward.1,
      processed.past.trans onward.2, processed.gone.trans (gone.trans first.2.gone)⟩
  · exact ⟨.of_done done' idle, (by simp), onward.1, onward.2, gone.trans first.2.gone⟩

end

theorem processMsgCall_processed :
    wp Tolerated (processMsgCall Session.host mech m) (fun r t => Processed s r.1 t) s := by
  simp only [processMsgCall, wp_bind, wp_engine]
  cases process : s.engine.processMsg with
  | processRoutingIdMsg => exact processRoutingIdMsg_processed here flowing m (by simp [process])
  | processHandshakeCommand => exact processHandshakeCommand_processed here flowing m process
  | writeCredential => exact writeCredential_processed here flowing m (by simp [process])
  | decodeAndPush => exact decodeAndPush_processed here flowing m (by simp [process])
  | pushOneThenDecodeAndPush =>
    exact pushOneThenDecodeAndPush_processed here flowing m (by simp [process])
  | pushMsgToSession =>
    exact wp_mono (pushMsgToSession_processed here flowing m (by simp [process]))
      fun _ _ done => done.1

omit m in
theorem processDecoded_processed (ended : s.engine.past = true) :
    wp Tolerated (processDecoded Session.host mech) (fun rc t => Processed s rc t) s := by
  simp only [StreamEngine.processDecoded, wp_bind, wp_engine]
  refine wp_mono (processMsgCall_processed here flowing _) fun r t processed => ?_
  have ended' := processed.past.trans ended
  refine ⟨⟨processed.inStep.next, processed.inStep.room⟩, processed.flowing,
    processed.inputStopped, ?_, processed.gone⟩
  simp_all [past]

end Processing

theorem decodeFrames_processed (n : Nat) : ∀ s : Plugged μ (Session μ), InStep s →
    ¬ s.world.Stopped → s.engine.past = true →
    wp Tolerated (decodeFrames Session.host mech n) (fun rc t => Processed s rc t) s := by
  induction n with
  | zero => exact fun s here flowing ended => ⟨here, fun _ => flowing, rfl, rfl, rfl⟩
  | succ n ih =>
    intro s here flowing ended
    simp only [StreamEngine.decodeFrames, wp_bind, wp_engine]
    cases s.engine.input with
    | nil => exact ⟨here, fun _ => flowing, rfl, rfl, rfl⟩
    | cons frame rest =>
      cases frame with
      | malformed => exact ⟨⟨here.next, here.room⟩, fun _ => flowing, rfl, rfl, rfl⟩
      | frame m =>
        simp only [wp_bind, wp_update]
        have taken : Along s { s with engine := { s.engine with
            input := rest, decoder := some m } } :=
          ⟨id, id, rfl, by simp_all [past], rfl⟩
        have ended' := taken.past.trans ended
        refine wp_mono (processDecoded_processed ⟨here.next, here.room⟩ flowing ended')
          fun rc t processed => wp_ite (fun ok => ?_) fun _ => processed.trans taken
        refine wp_mono (ih t processed.inStep (processed.flowing ok)
          (processed.past.trans ended')) fun rc u further => ?_
        exact ⟨further.inStep, further.flowing, further.inputStopped.trans processed.inputStopped,
          further.past.trans (processed.past.trans taken.past),
          further.gone.trans processed.gone⟩

/-! ## Events -/

structure Matched (s : Plugged μ (Session μ)) : Prop extends InStep s where
  input : s.world.Stopped → s.engine.inputStopped = true
  ended : s.engine.inputStopped = true → s.engine.past = true

abbrev Fine (s : Plugged μ (Session μ)) : Prop := s.gone = true ∨ Matched s

theorem Matched.along (matched : Matched s) (there : InStep t) (along : Along s t) : Matched t where
  toInStep := there
  input stopped := along.inputStopped.trans (matched.input (along.stopped stopped))
  ended input := along.past.trans (matched.ended (along.inputStopped.symm.trans input))

theorem Matched.flows {x : EngineM μ (Session μ) α} (matched : Matched s)
    (flows : Flows false x) : wp Tolerated x (fun _ t => Matched t ∧ t.gone = s.gone) s := by
  apply wp_mono (flows s ⟨matched.toInStep, nofun⟩)
  intro a t done
  exact ⟨matched.along done.1.1 done.2, done.2.gone⟩

theorem matched_of_flowing (here : InStep s) (flowing : ¬ s.world.Stopped)
    (ended : s.engine.past = true) : Matched s :=
  ⟨here, fun stopped => absurd stopped flowing, fun _ => ended⟩

theorem error_fine (reason : ErrorReason) (s : Plugged μ (Session μ)) :
    wp Tolerated (error Session.host mech reason) (fun _ t => Fine t) s :=
  wp_mono (error_gone (Session.host_respects Session.tolerated_of_pipe nofun) reason s)
    fun _ _ gone => .inl gone

abbrev Carries (on : Bool) (t : Plugged μ (Session μ)) : Prop :=
  Fine t ∧ (on = true → Matched t)

theorem Matched.carries (matched : Matched s) (on : Bool) : Carries on s :=
  ⟨.inr matched, fun _ => matched⟩

theorem error_false_carries (reason : ErrorReason) (s : Plugged μ (Session μ)) :
    wp Tolerated (do error Session.host mech reason; pure false) Carries s := by
  rw [wp_bind]
  exact wp_mono (error_fine reason s) fun _ _ fine => ⟨fine, nofun⟩

theorem Matched.flush_carries (matched : Matched s) (on : Bool) :
    wp Tolerated (do call Session.host.flush; pure on) Carries s := by
  rw [wp_bind]
  exact wp_mono (matched.flows (flows_call Session.steady_flush)) fun _ _ done => done.1.carries _

theorem decodeInput_carries (here : InStep s) (flowing : ¬ s.world.Stopped)
    (ended : s.engine.past = true) : wp Tolerated (decodeInput Session.host mech) Carries s := by
  simp only [StreamEngine.decodeInput, wp_bind, wp_engine]
  refine wp_mono (decodeFrames_processed _ s here flowing ended) fun rc t processed => ?_
  have ended' := processed.past.trans ended
  cases rc with
  | ok =>
    exact (matched_of_flowing processed.inStep (processed.flowing rfl) ended').flush_carries _
  | again =>
    have there : Matched ({ t with engine := { t.engine with inputStopped := true } } :
        Plugged μ (Session μ)) :=
      ⟨⟨processed.inStep.next, processed.inStep.room⟩, fun _ => rfl, fun _ => ended'⟩
    exact there.flush_carries _
  | failed => exact error_false_carries _ t

theorem receive_carries (here : InStep s) (flowing : ¬ s.world.Stopped)
    (ended : s.engine.past = true) : wp Tolerated (receive Session.host mech) Carries s := by
  simp only [StreamEngine.receive, wp_bind, wp_engine]
  cases s.engine.input with
  | cons frame rest => exact decodeInput_carries here flowing ended
  | nil =>
    have reading : Flows false (call Session.host.read : EngineM μ (Session μ) Received) :=
      flows_call Session.steady_nextRead
    rw [wp_bind]
    refine wp_mono (reading s ⟨here, (by simp)⟩) fun received t first => ?_
    have flowing' : ¬ t.world.Stopped := fun stopped => flowing (first.2.stopped stopped)
    have ended' := first.2.past.trans ended
    cases received with
    | again => exact (matched_of_flowing first.1.1 flowing' ended').carries _
    | lost => exact error_false_carries _ t
    | data frames =>
      exact decodeInput_carries ⟨first.1.1.next, first.1.1.room⟩ flowing' ended'

section Greeting

variable {s : Plugged μ (Session μ)} (room : s.world.Room) (input : s.engine.inputStopped = false)
include room input

omit room in
theorem matched_of_room (room : t.world.Room) (same : t.engine.inputStopped = s.engine.inputStopped)
    (next : t.engine.nextMsg = .nextHandshakeCommand →
      t.engine.processMsg = .processHandshakeCommand) : Matched t := by
  refine ⟨⟨next, fun _ => room⟩, fun stopped => absurd stopped room.not_stopped, fun told => ?_⟩
  simp [same.trans input] at told

theorem handshakeLegacy_carries (encoder : Encoder)
    (next : ∀ e, (s.engine.nextMsg = e.nextMsg ∧ s.engine.processMsg = e.processMsg) →
      (f e).nextMsg = .nextHandshakeCommand → (f e).processMsg = .processHandshakeCommand)
    (same : ∀ e, (f e).inputStopped = e.inputStopped) :
    wp Tolerated (handshakeLegacy Session.host mech encoder f) Carries s := by
  refine wp_ite (fun _ => error_false_carries _ s) fun _ => ?_
  apply Matched.carries
  apply matched_of_room input
  · exact room
  · exact same _
  · exact next _ ⟨rfl, rfl⟩

end Greeting

theorem handshake_carries (matched : Matched s) (input : s.engine.inputStopped = false)
    (room : s.engine.hasHandshakeStage = true → s.world.Room) :
    wp Tolerated (handshake Session.host mech) Carries s := by
  refine wp_ite (fun stage => ?_) fun _ => matched.carries _
  rw [wp_bind]
  refine wp_mono (call_steady Session.steady_nextGreeting s) fun greeting t first => ?_
  obtain ⟨engine, gone, onward⟩ := first
  have room' := onward.room (room stage)
  have input' : t.engine.inputStopped = false := engine ▸ input
  have next := engine ▸ matched.next
  have next' (e : Engine μ) (same : t.engine.nextMsg = e.nextMsg ∧
      t.engine.processMsg = e.processMsg) (told : e.nextMsg = .nextHandshakeCommand) :
      e.processMsg = .processHandshakeCommand := same.2.symm.trans (next (same.1.trans told))
  cases greeting with
  | waiting => exact (matched_of_room input' room' rfl next).carries _
  | lost | mismatch => exact error_false_carries _ t
  | unversioned frames => exact handshakeLegacy_carries room' input' _ (by simp) fun _ => rfl
  | v1_0 | v2_0 => exact handshakeLegacy_carries room' input' _ next' fun _ => rfl
  | v3_0 m | v3_1 m =>
    apply Matched.carries
    exact matched_of_room input' room' rfl fun _ => rfl

section

variable (matched : Matched s)
  (room : s.engine.handshaking = true → s.engine.hasHandshakeStage = true → s.world.Room)
include matched room

theorem greeted_carries :
    wp Tolerated (greeted Session.host mech) (fun done t => Carries done t ∧
      (done = true → t.engine.handshaking = false)) s := by
  refine wp_ite (fun shaking => ?_) fun quiet => ⟨matched.carries _, fun _ => by simpa using quiet⟩
  have input : s.engine.inputStopped = false := by
    apply Bool.eq_false_iff.mpr
    intro stopped
    simpa [past, shaking] using matched.ended stopped
  rw [wp_bind]
  refine wp_mono (handshake_carries matched input (room shaking)) fun done t carries => ?_
  refine wp_ite (fun yes => ?_) fun _ => ⟨⟨carries.1, nofun⟩, nofun⟩
  have there := carries.2 yes
  simp only [wp_bind, wp_update, wp_engine]
  refine wp_mono (onlyIf_steady _ Session.steady_engineReady _) fun _ u first => ?_
  obtain ⟨engine, gone, onward⟩ := first
  refine ⟨Matched.carries ⟨⟨?_, ?_⟩, ?_, ?_⟩ _, fun _ => by rw [engine]⟩
  · simpa [engine] using there.next
  · rw [engine]
    exact fun asks => onward.room (there.room asks)
  · rw [engine]
    exact fun stopped => there.input (onward.stopped stopped)
  · rw [engine]
    intro told
    have ended := there.ended told
    simp only [past, Bool.and_eq_true] at ended ⊢
    exact ⟨ended.1, rfl⟩

theorem inEventInternal_carries : wp Tolerated (inEventInternal Session.host mech) Carries s := by
  simp only [StreamEngine.inEventInternal, wp_bind]
  refine wp_assert (by simp) fun _ => ?_
  refine wp_mono (greeted_carries matched room) fun done t greets => ?_
  refine wp_ite (fun yes => ?_) fun _ => ⟨greets.1.1, (by simp)⟩
  have there := greets.1.2 yes
  simp only [wp_bind]
  refine wp_assert (by simp) fun decoder => wp_ite (fun _ => ?_) fun goes => ?_
  · simp only [wp_bind]
    apply Matched.carries
    exact ⟨⟨there.next, there.room⟩, there.input, there.ended⟩
  · refine receive_carries there.toInStep (fun stopped => goes (there.input stopped)) ?_
    simp [past, decoder, greets.2 yes]

end

theorem resumeInput_carries (here : InStep s) (flowing : rc = .ok → ¬ s.world.Stopped)
    (input : s.engine.inputStopped = true) (ended : s.engine.past = true) :
    wp Tolerated (resumeInput Session.host mech rc) Carries s := by
  have matched : Matched s := ⟨here, fun _ => input, fun _ => ended⟩
  refine wp_ite (fun _ => ?_) fun again => wp_ite (fun _ => error_false_carries _ s) fun _ =>
    wp_ite (fun _ => error_false_carries _ s) fun failed => ?_
  · exact matched.flush_carries _
  · have ok : rc = .ok := by
      cases rc with
      | ok => rfl
      | again => exact absurd rfl again
      | failed => exact absurd rfl failed
    simp only [wp_bind, wp_update]
    have there : InStep ({ s with engine := { s.engine with inputStopped := false } } :
        Plugged μ (Session μ)) := ⟨here.next, here.room⟩
    have flushed : Flows false (call Session.host.flush : EngineM μ (Session μ) Unit) :=
      flows_call Session.steady_flush
    refine wp_mono (flushed _ ⟨there, (by simp)⟩) fun _ t first => ?_
    have ended' := first.2.past.trans ended
    refine inEventInternal_carries ?_ fun shaking _ => ?_
    · exact matched_of_flowing first.1.1 (fun stopped => flowing ok (first.2.stopped stopped)) ended'
    · simp [past, shaking] at ended'

theorem restartInput_carries (here : InStep s) (flowing : ¬ s.world.Stopped)
    (input : s.engine.inputStopped = true) (ended : s.engine.past = true) :
    wp Tolerated (restartInput Session.host mech) Carries s := by
  have decoder : s.engine.decoder.isSome = true := by
    simp only [past, Bool.and_eq_true] at ended
    exact ended.1
  simp only [StreamEngine.restartInput, wp_bind]
  refine wp_assert (by simp [input, decoder]) fun _ => ?_
  refine wp_mono (processDecoded_processed here flowing ended) fun rc t processed => ?_
  have input' := processed.inputStopped.trans input
  have ended' := processed.past.trans ended
  cases rc with
  | again =>
    have matched : Matched t := ⟨processed.inStep, fun _ => input', fun _ => ended'⟩
    exact matched.flush_carries _
  | failed => exact error_false_carries _ t
  | ok =>
    simp only [wp_bind, wp_engine]
    refine wp_mono (decodeFrames_processed _ t processed.inStep (processed.flowing rfl) ended')
      fun rc u further => ?_
    exact resumeInput_carries further.inStep further.flowing (further.inputStopped.trans input')
      (further.past.trans ended')

theorem zapMsgAvailable_fine (matched : Matched s) (room : s.world.Room) :
    wp Tolerated (zapMsgAvailable Session.host mech) (fun _ t => Fine t) s := by
  simp only [StreamEngine.zapMsgAvailable, ask, wp_bind, wp_engine]
  cases s.engine.mechanism with
  | none => simp
  | some k =>
    refine wp_ite (fun _ => ?_) fun _ => error_fine _ _
    have inward : wp Tolerated (restartStopped Session.host mech) Carries
        ({ s with engine := { s.engine with mechanism := some (mech.zapMsgAvailable k).2 } }) := by
      have there : Matched ({ s with engine := { s.engine with
          mechanism := some (mech.zapMsgAvailable k).2 } } : Plugged μ (Session μ)) :=
        ⟨⟨matched.next, matched.room⟩, matched.input, matched.ended⟩
      refine wp_ite (fun stopped => ?_) fun _ => there.carries _
      exact restartInput_carries there.toInStep room.not_stopped stopped (there.ended stopped)
    rw [wp_bind]
    refine wp_mono inward fun goes_on t carries => ?_
    refine wp_ite (fun on => ?_) fun _ => carries.1
    refine wp_ite (fun _ => ?_) fun _ => carries.1
    exact wp_mono ((carries.2 on).flows flows_restartOutput) fun _ _ done => .inr done.1

theorem timerEvent_fine (matched : Matched s) (id : TimerId) :
    wp Tolerated (timerEvent Session.host mech id) (fun _ t => Fine t) s := by
  cases id with
  | heartbeatIvl =>
    have beat : Flows false (do
        update (ω := Session μ) fun e => { e with nextMsg := .producePingMessage }
        outEvent Session.host mech
        update (setTimer .heartbeatIvl true)) :=
      .bind (flows_update (fun _ => rfl) fun _ => nofun) fun _ =>
        .bind flows_outEvent fun _ => flows_update (fun _ => rfl) fun _ => id
    exact wp_mono (matched.flows beat) fun _ _ done => .inr done.1
  | _ => exact error_fine _ _

theorem plug_fine (options : EngineOptions) (hasHandshakeStage : Bool) {w : Session μ}
    (room : w.Room) :
    wp Tolerated (plug Session.host mech) (fun _ t => Fine t)
      ⟨new options hasHandshakeStage, w, false⟩ := by
  have enter {s : Plugged μ (Session μ)} (flowing : ¬ s.world.Stopped)
      (next : s.engine.nextMsg ≠ .nextHandshakeCommand)
      (process : s.engine.processMsg ≠ .processHandshakeCommand)
      (input : s.engine.inputStopped = false)
      (stage : s.engine.hasHandshakeStage = true → s.world.Room) :
      wp Tolerated (inEvent Session.host mech) (fun _ t => Fine t) s := by
    have matched : Matched s := by
      refine ⟨.of_done process next, fun stopped => absurd stopped flowing, fun stopped => ?_⟩
      simp [input] at stopped
    simp only [StreamEngine.inEvent, wp_bind]
    exact wp_mono (inEventInternal_carries matched fun _ => stage) fun _ _ carries => carries.1
  simp only [plug, wp_bind]
  cases hasHandshakeStage with
  | true => exact enter room.not_stopped (by rintro ⟨⟩) (by rintro ⟨⟩) rfl fun _ => room
  | false =>
    simp only [new]
    refine wp_ite (fun _ => ?_) fun _ => enter room.not_stopped (by simp) (by simp) rfl (by simp)
    simp only [call, wp_bind, wp_zoom]
    refine wp_mono (Session.pushMsg_pushed _ _) fun r t pushed => ?_
    refine wp_mono (Session.steady_flush t trivial) fun _ u onward => ?_
    refine enter (fun stopped => ?_) (by simp) (by simp) rfl (by simp)
    exact pushed.room room (onward.2.stopped stopped)

end Engine

/-! ## Runs -/

namespace Linked

open Session (Tolerated Steady)
open Engine (Matched Fine)

variable {μ : Type} {mech : Mechanism μ} {l : Linked μ} {e : Engine μ} {pair : Pair}

def Agree (l : Linked μ) : Prop :=
  ∀ e, l.engine = some e →
    (e.nextMsg = .nextHandshakeCommand → e.processMsg = .processHandshakeCommand) ∧
    (l.session.Stopped → e.inputStopped = true) ∧ (e.inputStopped = true → e.past = true)

/-- An engine is attached to a session that could take a message, and so it stays until the
    handshake is ended. -/
def Roomy (l : Linked μ) : LinkAction μ → Prop
  | .attach _ _ => l.session.Room
  | .engine _ _ | .deliver _ | .processTerm _ _ | .lingerExpired _ | .socket _ =>
    l.shakesHands = true → l.session.Room

instance (l : Linked μ) (a : LinkAction μ) : Decidable (l.Roomy a) := by
  induction a using LinkAction.casesOn <;> dsimp only [Roomy] <;> infer_instance

def Ends : Except Fault (Linked μ) → Prop
  | .ok l => l.Agree
  | .error e => Tolerated e

theorem Agree.of_stopped {t : Linked μ} (agree : l.Agree) (engine : t.engine = l.engine)
    (stopped : t.session.Stopped → l.session.Stopped) : t.Agree := by
  intro e here
  obtain ⟨next, input, ended⟩ := agree e (engine ▸ here)
  exact ⟨next, fun stop => input (stopped stop), ended⟩

theorem ends_withSession {x : SessionM μ Unit} (agree : l.Agree) (steady : Steady x) :
    Ends (l.withSession x) := by
  have run := steady l.session trivial
  unfold withSession
  cases result : x l.session with
  | error e =>
    have failed := wp_error run result
    exact failed
  | ok done =>
    have onward := wp_ok run result
    exact agree.of_stopped rfl onward.2.stopped

theorem ends_withEngine {x : EngineM μ (Session μ) Unit}
    (fine : ∀ e, l.engine = some e → wp Tolerated x (fun _ t => Fine t) ⟨e, l.session, false⟩) :
    Ends (l.withEngine x) := by
  unfold withEngine
  cases here : l.engine with
  | none =>
    intro e there
    simp [here] at there
  | some e =>
    have run := fine e here
    dsimp only
    cases result : x ⟨e, l.session, false⟩ with
    | error e =>
      have failed := wp_error run result
      exact failed
    | ok done =>
      have ended := wp_ok run result
      intro e' there
      simp only [Option.ite_none_left_eq_some, Option.some.injEq] at there
      obtain ⟨stays, rfl⟩ := there
      have matched := ended.resolve_left (by simp [stays])
      exact ⟨matched.next, matched.input, matched.ended⟩

theorem shakesHands_of_asks (engine : l.engine = some e)
    (asks : e.processMsg = .processHandshakeCommand) : l.shakesHands = true := by
  simp [shakesHands, engine, asks]

theorem Agree.matched (agree : l.Agree) (engine : l.engine = some e)
    (room : l.shakesHands = true → l.session.Room) :
    Matched (⟨e, l.session, false⟩ : Plugged μ (Session μ)) := by
  obtain ⟨next, input, ended⟩ := agree e engine
  exact ⟨⟨next, fun asks => room (shakesHands_of_asks engine asks)⟩, input, ended⟩

theorem ends_attach (stage : Bool) (idle : l.engine = none) (room : l.session.Room) :
    Ends (l.processAttach mech stage) := by
  unfold processAttach
  have ready : Steady (onlyIf (!stage) Session.engineReady : SessionM μ Unit) :=
    .when Session.steady_engineReady
  have run := ready l.session trivial
  simp only [idle, Option.isSome_none, Bool.false_eq_true, if_false, withSession]
  cases result : (onlyIf (!stage) Session.engineReady : SessionM μ Unit) l.session with
  | error e =>
    have failed := wp_error run result
    exact failed
  | ok done =>
    have onward := wp_ok run result
    simp only [ok_bind]
    apply ends_withEngine
    rintro e here
    cases here
    exact Engine.plug_fine _ _ (onward.2.room room)

theorem ends_event (agree : l.Agree) (event : EngineEvent)
    (room : l.shakesHands = true → l.session.Room) (called : event ≠ .restartInput)
    (zap : event = .zapMsgAvailable → l.shakesHands = true) :
    Ends (l.withEngine (Engine.handle Session.host mech event)) := by
  apply ends_withEngine
  intro e engine
  have matched := agree.matched engine room
  cases event with
  | inEvent =>
    simp only [StreamEngine.handle, StreamEngine.inEvent, wp_bind]
    refine wp_mono (Engine.inEventInternal_carries matched fun shaking _ => room ?_)
      fun _ _ carries => carries.1
    simpa [shakesHands, engine] using Or.inl shaking
  | outEvent => exact wp_mono (matched.flows Engine.flows_outEvent) fun _ _ done => .inr done.1
  | restartInput => exact absurd rfl called
  | restartOutput =>
    exact wp_mono (matched.flows Engine.flows_restartOutput) fun _ _ done => .inr done.1
  | zapMsgAvailable => exact Engine.zapMsgAvailable_fine matched (room (zap rfl))
  | timerEvent id => exact Engine.timerEvent_fine matched id

theorem stopped_of_heard {event : Option Event} (heard : l.session.pair.Heard .first pair event)
    (stopped : ({ l.session with pair := pair } : Session μ).Stopped) : l.session.Stopped := by
  obtain ⟨⟨has, active⟩, closed⟩ := stopped
  refine ⟨⟨has, heard.active active⟩, ?_⟩
  apply Bool.eq_false_iff.mpr
  intro opened
  have still := heard.started opened
  simp [still] at closed

theorem Agree.woken (agree : l.Agree) (engine : l.engine = some e) (has : l.session.hasPipe = true)
    (heard : l.session.pair.Heard .first pair (some .writeActivated)) :
    l.session.Stopped ∧ e.inputStopped = true ∧ e.past = true := by
  obtain ⟨asleep, active, -⟩ := heard.woken rfl
  have stopped : l.session.Stopped := ⟨⟨has, active⟩, asleep⟩
  obtain ⟨-, input, ended⟩ := agree e engine
  exact ⟨stopped, input stopped, ended (input stopped)⟩

theorem ends_told (agree : l.Agree) (has : l.session.hasPipe = true)
    (room : l.shakesHands = true → l.session.Room) {event : Option Event}
    (heard : l.session.pair.Heard .first pair event) :
    Ends ({ l with session := { l.session with pair := pair } }.told mech event) := by
  have next : ({ l with session := { l.session with pair := pair } } : Linked μ).Agree :=
    agree.of_stopped rfl (stopped_of_heard heard)
  cases event with
  | none => exact next
  | some event =>
    cases event with
    | readActivated =>
      cases engine : l.engine with
      | none =>
        exact ends_withSession (engine ▸ next) Session.steady_checkRead
      | some e =>
        simp only [told]
        apply ends_withEngine
        rintro _ ⟨⟩
        have steady := heard.steady rfl
        refine wp_mono (Matched.flows ?_ Engine.flows_restartOutput) fun _ _ done => .inr done.1
        refine (engine ▸ next).matched rfl fun shaking live => ?_
        have before : l.session.Live := ⟨has, heard.active live.2⟩
        obtain ⟨outActive, checkHwm⟩ := room (by simpa [shakesHands, engine] using shaking) before
        exact ⟨steady.outActive.trans outActive, steady.checkHwm.trans checkHwm⟩
    | writeActivated =>
      apply ends_withEngine
      intro e engine
      obtain ⟨stopped, input, ended⟩ := agree.woken engine has heard
      have done : e.processMsg ≠ .processHandshakeCommand := fun asks =>
        (room (shakesHands_of_asks engine asks)).not_stopped stopped
      obtain ⟨asks, -, -⟩ := agree e engine
      simp only [wp_bind]
      refine wp_mono (Engine.restartInput_carries ?_ (fun stop => ?_) input ended)
        fun _ _ carries => carries.1
      · exact .of_done done fun told => done (asks told)
      · have still := (heard.woken rfl).2.2
        have closed := stop.2
        simp [still] at closed
    | hiccuped => rintro ⟨⟩
    | pipeTerminated =>
      intro e here
      have engine : l.engine = some e := by
        simp only [pipeTerminated, Option.ite_none_left_eq_some] at here
        exact here.2
      obtain ⟨asks, -, ended⟩ := agree e engine
      exact ⟨asks, fun stopped => absurd stopped.1.1 (by simp [pipeTerminated]), ended⟩
    | statsPublish outbound inbound => exact next

theorem ends_step {a : LinkAction μ} (agree : l.Agree) (possible : l.Possible a)
    (roomy : l.Roomy a) : Ends (l.step mech a) := by
  have wired (wire : Wire μ) : (l.withWire wire).Agree := agree.of_stopped rfl id
  cases a with
  | attach stage wire =>
    have engine : (l.withWire wire).engine = none := possible
    have room : (l.withWire wire).session.Room := roomy
    exact ends_attach stage engine room
  | engine event wire =>
    refine ends_event (wired wire) event roomy ?_ ?_
    · rintro rfl
      exact possible
    · rintro rfl
      exact possible
  | deliver wire =>
    have meets := (l.withWire wire).session.pair.deliver_meets .first
    simp only [step, deliver]
    cases delivered : (l.withWire wire).session.pair.deliver .first with
    | error e => exact Session.tolerated_of_pipe e (by simpa [delivered, Meets] using meets)
    | ok r => exact ends_told (wired wire) possible.1 roomy (meets.ok delivered)
  | processTerm linger wire =>
    refine ends_withSession (wired wire) (.bind .get fun s => ?_)
    refine .bind (.ite (fun _ => .pure _) fun _ => .throw (by simp)) fun _ => ?_
    refine .ite (fun _ => ?_) fun _ => Session.steady_modify fun _ => ⟨id, id⟩
    refine .bind (Session.steady_modify fun _ => ⟨id, id⟩) fun _ => ?_
    refine .bind (Session.steady_terminatePipe _) fun _ => ?_
    exact .when Session.steady_checkRead
  | lingerExpired wire =>
    refine ends_withSession (wired wire) (.bind (Session.steady_modify fun _ => ⟨id, id⟩) fun _ => ?_)
    refine .bind .get fun s => .bind (.ite (fun _ => .pure _) fun _ => .throw (by simp)) fun _ => ?_
    exact Session.steady_terminatePipe false
  | socket action =>
    have meets := l.session.pair.step_meets .second action
    simp only [step]
    cases stepped : l.session.pair.step (.second, action) with
    | error e => exact Session.tolerated_of_pipe e (by simpa [stepped, Meets] using meets)
    | ok pair =>
      have same : pair.pipe .first = l.session.pair.pipe .first := meets.ok stepped
      refine agree.of_stopped rfl fun stopped => ?_
      simpa [Session.Stopped, Session.Live, same] using stopped

/-- As long as there is room for an engine until its handshake is over, `restart_input` is
    called on engines that have stopped their input. -/
theorem back_pressure_is_matched (mech : Mechanism μ) (options : SessionOptions) (hwms : End → Int)
    (conflate hasPipe : Bool) {a : LinkAction μ}
    (reached : Reaches (step mech) (fun l a => l.Possible a ∧ l.Roomy a)
      (start options hwms conflate hasPipe) l) (possible : l.Possible a) (roomy : l.Roomy a) :
    l.step mech a ≠ .error (.assertion .restartInput) ∧
    ∀ wire pair e, a = .deliver wire →
      l.session.pair.deliver .first = .ok (pair, some .writeActivated) → l.engine = some e →
      e.inputStopped = true ∧ e.decoder.isSome = true := by
  have agree : l.Agree := reached.invariant (by simp [Agree, start])
    fun l a t agree ok taken => by
      have ends : Ends (l.step mech a) := ends_step agree ok.1 ok.2
      simpa [taken, Ends] using ends
  constructor
  · intro failed
    have ends : Ends (l.step mech a) := ends_step agree possible roomy
    simp [failed, Ends] at ends
  · rintro wire pair e rfl delivered engine
    have heard := (l.session.pair.deliver_meets .first).ok delivered
    obtain ⟨-, input, ended⟩ := agree.woken engine possible.1 heard
    simp only [Engine.past, Bool.and_eq_true] at ended
    exact ⟨input, ended.1⟩

/-- A peer that answers the greeting with ZMTP 3.1 and NULL, and sends its READY. -/
def nullPeer : Wire (NullMechanism × ZapPipe) where
  greetings := [.v3_1 (.new {} [], { handler := false })]
  reads := [.data [.frame { flags := MsgFlag.command, data := readyCommand }]]

def connects : List (LinkAction (NullMechanism × ZapPipe)) :=
  [.attach true nullPeer, .engine .outEvent { writes := [some 10] },
    .engine .outEvent { writes := [some 100] }]

def sends (bodies : List (List UInt8)) : LinkAction (NullMechanism × ZapPipe) :=
  .engine .inEvent { reads := [.data (bodies.map fun body => .frame { data := body })] }

theorem back_pressure_is_matched_when_read : ∃ l : Linked (NullMechanism × ZapPipe),
      Reaches (step .null) (fun l a => l.Possible a ∧ l.Roomy a)
        (start {} (fun _ => 1) false true) l ∧
      l.session.Stopped ∧ l.Possible (.deliver {}) ∧ l.Roomy (.deliver {}) ∧
      l.step .null (.deliver {}) ≠ .error (.assertion .restartInput) := by
  obtain ⟨l, reached, stopped, possible, roomy⟩ := exists_reaches (step .null)
    (fun l a => l.Possible a ∧ l.Roomy a) (start {} (fun _ => 1) false true)
    (connects ++ [sends [[1], [2]], .socket .read])
    (fun l => (l.session.Live ∧ (l.session.pair.pipe .first).outActive = false) ∧
      l.Possible (.deliver {}) ∧ l.Roomy (.deliver {}))
    (by decide +kernel)
  exact ⟨l, reached, stopped, possible, roomy,
    (back_pressure_is_matched .null {} (fun _ => 1) false true reached possible roomy).1⟩

/-- An engine that dies with a full pipe leaves the next one an `activate_write` it cannot
    use. So does an engine whose pipe has no room for the routing id of the peer. -/
theorem back_pressure_outlives_engine : (∃ l : Linked (NullMechanism × ZapPipe),
      Reaches (step .null) Possible
        (start { engine := { heartbeatInterval := 1000 } } (fun _ => 1) false true) l ∧
      l.Possible (.deliver {}) ∧
      l.step .null (.deliver {}) = .error (.assertion .restartInput)) ∧
    ∃ l : Linked (NullMechanism × ZapPipe), Reaches (step .null) Possible
        (start { engine := { recvRoutingId := true } } (fun _ => 1) false true) l ∧
      l.Possible (.deliver {}) ∧
      l.step .null (.deliver {}) = .error (.assertion .restartInput) := by
  constructor
  · exact exists_reaches _ _ _
      (connects ++ [sends [[1], [2]], .engine (.timerEvent .heartbeatIvl) {},
        .engine (.timerEvent .heartbeatTimeout) {}, .attach true {}, .socket .read])
      _ (by decide +kernel)
  · exact exists_reaches _ _ _
      (connects ++ [sends [[1]], .engine .inEvent { reads := [.lost] }] ++ connects ++
        [.socket .read])
      _ (by decide +kernel)

end Linked

end Zmq
