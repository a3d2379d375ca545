import Zmq.Engine.Basic

/-! # What the functions of the base class keep

A function of `stream_engine_base_t` keeps what is kept by the functions of the derived class that
it calls, by the calls on the host and by the changes of its own fields.
-/

namespace Zmq

open Lib

structure Host.Respects {μ ω : Type} (host : Host μ ω) (permitted : Fault → Prop) : Prop where
  pushMsg : ∀ m w, wp permitted (host.pushMsg m) (fun _ _ => True) w
  pullMsg : ∀ w, wp permitted host.pullMsg (fun _ _ => True) w
  flush : ∀ w, wp permitted host.flush (fun _ _ => True) w
  rollback : ∀ w, wp permitted host.rollback (fun _ _ => True) w
  engineReady : ∀ w, wp permitted host.engineReady (fun _ _ => True) w
  engineError : ∀ b r w, wp permitted (host.engineError b r) (fun _ _ => True) w
  greeting : ∀ w, wp permitted host.greeting (fun _ _ => True) w
  read : ∀ w, wp permitted host.read (fun _ _ => True) w
  write : ∀ n w, wp permitted (host.write n) (fun _ _ => True) w

namespace StreamEngine

section

variable {μ ν ξ ω : Type} {host : Host μ ω} {mech : Mechanism μ} {permitted : Fault → Prop}

theorem error_gone (respects : host.Respects permitted) (reason : ErrorReason) (s : PluggedIn (StreamEngine μ ν ξ) ω) :
    wp permitted (error host mech reason) (fun _ t => t.gone = true) s := by
  have run {α : Type} {x : Program Fault ω α} {post : α → PluggedIn (StreamEngine μ ν ξ) ω → Prop}
      {s : PluggedIn (StreamEngine μ ν ξ) ω}
      (fine : ∀ w, wp permitted x (fun _ _ => True) w) (next : ∀ a t, post a t) :
      wp permitted (call x) post s := by
    rw [call, wp_zoom]
    exact wp_any (fine s.world) fun a _ => next a _
  simp only [error, wp_bind, wp_modify]
  apply wp_any
  · refine wp_ite (fun _ => ?_) fun _ => trivial
    rw [wp_bind]
    exact run (respects.pushMsg _) fun _ _ => trivial
  · intro _ t
    apply wp_any
    · refine wp_ite (fun _ => ?_) fun _ => trivial
      simp only [wp_bind]
      exact run respects.rollback fun _ u => run (respects.pushMsg _) fun _ _ => trivial
    · intro _ u
      exact run respects.flush fun _ v => run (respects.engineError _ _) fun _ _ => trivial

end

variable {μ ν ξ ω α : Type} {host : Host μ ω} {mech : Mechanism μ} {permitted : Fault → Prop}
  {inv : PluggedIn (StreamEngine μ ν ξ) ω → Prop}
  {onward : PluggedIn (StreamEngine μ ν ξ) ω → PluggedIn (StreamEngine μ ν ξ) ω → Prop}
  [IsPreorder (PluggedIn (StreamEngine μ ν ξ) ω) onward] {site : AssertSite} {b : Bool}

section

variable {next : Unit → StreamM μ ν ξ ω α}

theorem keeps_engine :
    Keeps permitted inv onward (engine : StreamM μ ν ξ ω (StreamEngine μ ν ξ)) :=
  .bind .get fun _ => .pure _

theorem keeps_check (tolerable : permitted (.assertion site))
    (rest : Keeps permitted inv onward (next ())) :
    Keeps permitted inv onward (assert b site >>= next) :=
  .bind (.ite (fun _ => .pure _) fun _ => .throw tolerable) fun _ => rest

end

theorem keeps_onlyIf {x : StreamM μ ν ξ ω Unit} (kept : Keeps permitted inv onward x) :
    Keeps permitted inv onward (onlyIf b x) :=
  .when kept

theorem keeps_pullMsgFromSession (pull : Keeps permitted inv onward (call host.pullMsg)) :
    Keeps permitted inv onward (pullMsgFromSession host) := by
  refine .bind pull fun pulled => ?_
  cases pulled with
  | none | some => exact .pure _

/-! ## Output -/

variable (host permitted inv onward) in
/-- The output of an engine is no matter of `inv`. -/
structure Outputs : Prop where
  outsize : ∀ f : StreamEngine μ ν ξ → Nat,
    Keeps permitted inv onward (update fun e => { e with outsize := f e })
  outputStopped : ∀ b, Keeps permitted inv onward (update fun e => { e with outputStopped := b })
  write : ∀ n, Keeps permitted inv onward (call (host.write n))
  encode : permitted (.assertion .encode)
  encoder : permitted (.assertion .encoder)

namespace Outputs

variable (outputs : Outputs host permitted inv onward)
include outputs

theorem writeOutput : Keeps permitted inv onward (writeOutput host) := by
  refine .bind keeps_engine fun e => ?_
  refine .bind (outputs.write _) fun written => ?_
  cases written with
  | none => exact .pure _
  | some n => exact outputs.outsize _

variable {nextMsg : StreamM μ ν ξ ω (Rc × Msg)} (next : Keeps permitted inv onward nextMsg)
include next

theorem loadBatch (encoder : Encoder) (n : Nat) :
    Keeps permitted inv onward (loadBatch nextMsg encoder n) := by
  induction n with
  | zero => exact .pure _
  | succ n ih =>
    refine .bind next fun result => .when ?_
    refine keeps_check outputs.encode ?_
    refine .bind (outputs.outsize _) fun _ => ?_
    exact .bind keeps_engine fun e => .when ih

theorem fillOutput : Keeps permitted inv onward (fillOutput nextMsg) := by
  refine .bind keeps_engine fun e => .when ?_
  cases e.encoder with
  | none => exact keeps_check outputs.encoder (.pure _)
  | some encoder =>
    refine .bind (outputs.loadBatch next encoder _) fun _ => ?_
    refine .bind .get fun s => .ite (fun _ => .pure _) fun _ => .when ?_
    exact .bind (outputs.outputStopped _) fun _ => .pure _

variable (tolerable : permitted (.assertion .outEvent))
include tolerable

theorem outEvent : Keeps permitted inv onward (outEvent host nextMsg) := by
  refine .bind keeps_engine fun e => keeps_check tolerable ?_
  exact .bind (outputs.fillOutput next) fun some_left => .when outputs.writeOutput

theorem restartOutput : Keeps permitted inv onward (restartOutput host nextMsg) := by
  refine .bind keeps_engine fun e => .ite (fun _ => .pure _) fun _ => ?_
  exact .bind (outputs.outputStopped _) fun _ => outputs.outEvent next tolerable

end Outputs

/-! ## Messages -/

variable (host permitted inv onward) in
/-- The host, the mechanism, the timers and the pointers are no matter of `inv`. -/
structure Framed : Prop where
  respects : host.Respects permitted
  call : ∀ {α : Type} {x : Program Fault ω α}, (∀ w, wp permitted x (fun _ _ => True) w) →
    Keeps permitted inv onward (call x)
  update : ∀ f : StreamEngine μ ν ξ → StreamEngine μ ν ξ,
    (∀ e, ((f e).ioError, (f e).polled, (f e).input, (f e).mechanism) =
      (e.ioError, e.polled, e.input, e.mechanism)) → Keeps permitted inv onward (update f)
  ask : ∀ {α : Type} {site : AssertSite} {f : μ → α × μ}, site ≠ .outEvent →
    site ≠ .inEventInternal → Keeps permitted inv onward (ask site f)

namespace Framed

variable (framed : Framed host permitted inv onward)
include framed

theorem pushIf (b : Bool) (m : Msg) : Keeps permitted inv onward (pushIf host b m) :=
  .when (.bind (framed.call (framed.respects.pushMsg m)) fun _ => .pure _)

theorem mechanismReady : Keeps permitted inv onward (mechanismReady host mech) := by
  refine .bind (framed.update _ fun _ => by split <;> rfl) fun _ => ?_
  refine .bind keeps_engine fun e => ?_
  refine .bind (keeps_onlyIf (framed.call framed.respects.engineReady)) fun _ => ?_
  refine .bind (framed.pushIf _ _) fun known => .when ?_
  refine .bind (framed.pushIf _ _) fun notified => .when ?_
  refine .bind (keeps_onlyIf (framed.call framed.respects.flush)) fun _ => ?_
  exact framed.update _ fun _ => rfl

theorem nextHandshakeCommand (pulls : Keeps permitted inv onward (pullAndEncode host mech)) :
    Keeps permitted inv onward (nextHandshakeCommand host mech) := by
  refine .bind (framed.ask nofun nofun) fun status => ?_
  cases status with
  | ready => exact .bind framed.mechanismReady fun _ => pulls
  | error => exact .pure _
  | handshaking => exact .bind (framed.ask nofun nofun) fun result => .when (.pure _)

theorem processHandshakeCommand {nextMsg : StreamM μ ν ξ ω (Rc × Msg)}
    (restart : Keeps permitted inv onward (restartOutput host nextMsg)) (m : Msg) :
    Keeps permitted inv onward (processHandshakeCommand host mech nextMsg m) := by
  refine .bind (framed.ask nofun nofun) fun result => .when ?_
  refine .bind (framed.ask nofun nofun) fun status => .ite (fun _ => .pure _) fun _ => ?_
  refine .bind (keeps_onlyIf framed.mechanismReady) fun _ => ?_
  refine .bind keeps_engine fun e => ?_
  exact .bind (keeps_onlyIf restart) fun _ => .pure _

theorem pushOneThenDecodeAndPush (m : Msg) :
    Keeps permitted inv onward (pushOneThenDecodeAndPush host m) := by
  refine .bind (framed.call (framed.respects.pushMsg m)) fun result => ?_
  exact .bind (keeps_onlyIf (framed.update _ fun _ => rfl)) fun _ => .pure _

theorem writeCredential {decodeAndPush : Msg → StreamM μ ν ξ ω (Rc × Msg)} {m : Msg}
    (decodes : Keeps permitted inv onward (decodeAndPush m)) :
    Keeps permitted inv onward (writeCredential host mech decodeAndPush m) := by
  refine .bind (framed.ask nofun nofun) fun credential => ?_
  refine .bind (framed.pushIf _ _) fun known => .when ?_
  exact .bind (framed.update _ fun _ => rfl) fun _ => decodes

end Framed

end StreamEngine

end Zmq
