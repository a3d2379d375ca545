import Zmq.Engine.Frame
import Zmq.Pipe.Calls
import Zmq.Session.Basic

/-! # How the calls on a session can fail

A session fails in its pipe, or in the loop of `clean_pipes`, and never with an assertion of
the engine that called it.
-/

namespace Zmq

open Lib

namespace Session

variable {μ α : Type} {permitted : Fault → Prop}

/-- Programs that fail with what is permitted only. -/
abbrev Safe (permitted : Fault → Prop) (x : SessionM μ α) : Prop :=
  Keeps permitted (fun _ => True) (fun _ _ => True) x

instance : IsPreorder (Session μ) fun _ _ => True where
  refl _ := trivial
  trans _ _ _ _ _ := trivial

section

variable (ofPipe : ∀ e, e.ofPipe = true → permitted e)
include ofPipe

theorem wp_pipe {x : Pair → Except Fault (α × Pair)} {s : Session μ} {post : α → Session μ → Prop}
    (meets : Meets (fun r => post r.1 { s with pair := r.2 }) (x s.pair)) :
    wp permitted (pipe x) post s := by
  rw [pipe, wp_zoom, wp]
  cases run : x s.pair with
  | error e => exact ofPipe e (by simpa [run, Meets] using meets)
  | ok result => exact meets.ok run

theorem safe_pipe {x : Pair → Except Fault (α × Pair)} {P : Pair → α × Pair → Prop}
    (meets : ∀ pair, Meets (P pair) (x pair)) : Safe permitted (pipe x : SessionM μ α) := by
  intro s _
  exact wp_pipe ofPipe ((meets s.pair).mono fun _ _ => ⟨trivial, trivial⟩)

theorem safe_pipeDo {x : Pair → Except Fault Pair} {post : Pair → Pair → Prop}
    (meets : ∀ pair, Meets (post pair) (x pair)) : Safe permitted (pipeDo x : SessionM μ Unit) := by
  refine .bind .get fun _ => .when ?_
  exact safe_pipe ofPipe (P := fun _ _ => True) fun pair => (meets pair).map fun _ _ => trivial

theorem safe_pullMsg : Safe permitted (pullMsg : SessionM μ (Option Msg)) := by
  refine .bind .get fun s => .when ?_
  refine .bind (safe_pipe ofPipe fun pair => pair.read_meets .first) fun pulled => ?_
  cases pulled with
  | none => exact .pure _
  | some m => exact .bind (.modify fun _ _ => ⟨trivial, trivial⟩) fun _ => .pure _

theorem safe_pushMsg (m : Msg) : Safe permitted (pushMsg m : SessionM μ (Rc × Msg)) := by
  refine .bind .get fun s => .ite (fun _ => .pure _) fun _ => .when ?_
  refine .bind (safe_pipe ofPipe fun pair => pair.write_meets .first m _) fun written => ?_
  exact .when (.pure _)

theorem safe_dropIncomplete (own : permitted (.assertion .cleanPipes)) (n : Nat) :
    Safe permitted (dropIncomplete n : SessionM μ Unit) := by
  induction n with
  | zero => exact .bind .get fun s => .ite (fun _ => .pure _) fun _ => .throw own
  | succ n ih =>
    refine .bind .get fun s => .when ?_
    refine .bind (safe_pullMsg ofPipe) fun pulled => ?_
    exact .bind (.ite (fun _ => .pure _) fun _ => .throw own) fun _ => ih

theorem safe_terminatePipe (delay : Bool) : Safe permitted (terminatePipe delay : SessionM μ Unit) :=
  .bind .get fun _ => safe_pipeDo ofPipe fun pair => pair.terminate_meets .first _ _

theorem safe_checkRead : Safe permitted (checkRead : SessionM μ Unit) :=
  safe_pipeDo ofPipe fun pair => (pair.checkRead_meets .first).map fun _ aside => aside

section

variable (own : permitted (.assertion .cleanPipes))
include own

theorem safe_cleanPipes : Safe permitted (cleanPipes : SessionM μ Unit) := by
  refine .bind .get fun s => .when ?_
  refine .bind (safe_pipeDo ofPipe fun pair => pair.rollback_meets .first) fun _ => ?_
  refine .bind (safe_pipeDo ofPipe fun pair => pair.flush_meets .first) fun _ => ?_
  exact safe_dropIncomplete ofPipe own _

theorem safe_engineError (handshaked : Bool)
    (reason : ErrorReason) : Safe permitted (engineError handshaked reason : SessionM μ Unit) := by
  refine .bind (safe_cleanPipes ofPipe own) fun _ => .bind ?_ fun _ => safe_checkRead ofPipe
  refine .bind .get fun s => .ite (fun _ => ?_) fun _ => ?_
  · refine .bind .get fun s => .when ?_
    exact safe_pipeDo ofPipe fun pair => pair.hiccup_meets .first
  · exact .bind .get fun s => .when (safe_terminatePipe ofPipe false)

theorem host_respects : (host : Host μ (Session μ)).Respects permitted := by
  have run {β : Type} {x : SessionM μ β} (safe : Safe permitted x) (w : Session μ) :
      wp permitted x (fun _ _ => True) w := wp_mono (safe w trivial) fun _ _ _ => trivial
  constructor
  case pushMsg => exact fun m => run (safe_pushMsg ofPipe m)
  case pullMsg => exact run (safe_pullMsg ofPipe)
  case flush => exact run (safe_pipeDo ofPipe fun pair => pair.flush_meets .first)
  case rollback => exact run (safe_pipeDo ofPipe fun pair => pair.rollback_meets .first)
  case engineReady => exact fun w => trivial
  case engineError => exact fun handshaked reason => run (safe_engineError ofPipe own handshaked reason)
  case greeting =>
    intro w
    simp only [host, nextGreeting, wp]
    cases w.wire.greetings <;> trivial
  case read =>
    intro w
    simp only [host, nextRead, wp]
    cases w.wire.reads <;> trivial
  case write =>
    intro n w
    simp only [host, nextWrite, wp]
    cases w.wire.writes <;> trivial

end

end

end Session

end Zmq
