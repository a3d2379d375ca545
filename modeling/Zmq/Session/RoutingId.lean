import Zmq.Pipe.Outcome
import Zmq.Session.BackPressure

/-! # The routing id of an old peer

A peer that speaks ZMTP 1.0 or 2.0 sends its routing id as a first frame, and the engine
asserts that the session takes it, and the subscription it makes up for such a peer. The
session refuses them for the three reasons it has to refuse any message: no pipe, a pipe that
is terminating, and a pipe that is full.
-/

namespace Zmq

open Lib

def Msg.isWithheld (m : Msg) : Bool := m.command && !m.isSubscribe && !m.isCancel

namespace Session

variable {μ : Type} {s : Session μ} {m : Msg} {permitted : Fault → Prop}
  {post : Rc × Msg → Session μ → Prop}

def Accepts (s : Session μ) : Prop :=
  s.hasPipe = true ∧ (s.pair.pipe .first).state = .active ∧
    (s.pair.pipe .first).outActive = true ∧ (s.pair.pipe .first).checkHwm = true
  deriving Decidable

theorem wp_pushMsg_withheld (withheld : m.isWithheld = true) (next : post (.ok, m) s) :
    wp permitted (pushMsg m) post s := by
  exact wp_ite (fun _ => next) fun other => absurd withheld other

theorem wp_pushMsg_refused (passes : ¬ m.isWithheld = true) (refuses : ¬ s.Accepts)
    (next : ∀ t, post (.again, m) t) : wp permitted (pushMsg m) post s := by
  refine wp_ite (fun withheld => absurd withheld passes) fun _ => ?_
  refine wp_ite (fun has => ?_) fun _ => next s
  have refused : (s.pair.checkWrite .first).1 ≠ true := by
    rw [ne_eq, Pair.checkWrite_fst]
    exact fun agrees => refuses ⟨has, agrees⟩
  simp only [wp_bind, pipe, wp_zoom]
  simp only [wp, Pair.write, refused]
  exact next _

theorem wp_pushMsg_accepted (passes : ¬ m.isWithheld = true) (accepts : s.Accepts)
    (fails : ∀ e, e.ofPipe = true → permitted e)
    (next : ∀ t, (m.isRoutingId = true → t.Accepts) → post (.ok, .init) t) :
    wp permitted (pushMsg m) post s := by
  obtain ⟨has, agrees⟩ := accepts
  refine wp_ite (fun withheld => absurd withheld passes) fun _ => ?_
  refine wp_ite (fun _ => ?_) fun none => absurd has none
  rw [wp_bind]
  refine wp_pipe fails ((s.pair.write_meets .first m _).mono fun r wrote => ?_)
  have written : r.1 = true := wrote.accepted.mpr agrees
  refine wp_ite (fun _ => next _ fun routing => ?_) fun refused => absurd written refused
  exact ⟨has, wrote.state.trans agrees.1, wrote.outActive.mpr ⟨agrees.2.1, fun _ => written⟩,
    (wrote.checkHwm routing).trans agrees.2.2⟩

def Usable (s : Session μ) : Prop :=
  s.hasPipe = true → s.pair.Sound ∧ (s.pair.pipe .first).deleted = false

theorem wp_pushMsg_usable (usable : s.Usable) :
    wp permitted (pushMsg m) (fun _ t => t.Usable) s := by
  refine wp_ite (fun _ => usable) fun _ => wp_ite (fun has => ?_) fun _ => usable
  obtain ⟨sound, stays⟩ := usable has
  obtain ⟨written, t, run, writing⟩ := sound.write stays m s.wire.tryLock
  have usable' : Usable { s with pair := t } := by
    refine fun _ => ⟨writing.sound sound, ?_⟩
    cases writing <;> simpa using stays
  simp only [wp_bind, pipe, wp_zoom]
  rw [wp, run]
  exact wp_ite (fun _ => usable') fun _ => usable'

end Session

namespace Engine

variable {μ : Type} {s : Plugged μ (Session μ)} {m : Msg} {permitted : Fault → Prop} {wanted : Bool}

/-- The routing id as it goes to the socket. -/
abbrev tagged (m : Msg) : Msg := { m with flags := m.flags ||| MsgFlag.routingId }

def announces (e : Engine μ) (m : Msg) : Bool :=
  (e.options.recvRoutingId && !(tagged m).isWithheld) || e.own.subscriptionRequired

theorem wp_pushIf_skipped (idle : wanted = true → m.isWithheld = true) :
    wp permitted (pushIf Session.host wanted m) (fun taken t => taken = true ∧ t = s) s := by
  refine wp_ite (fun wants => ?_) fun _ => ⟨rfl, rfl⟩
  simp only [wp_bind, call, wp_zoom]
  exact Session.wp_pushMsg_withheld (idle wants) ⟨rfl, rfl⟩

theorem wp_pushIf_taken (fails : ∀ e, e.ofPipe = true → permitted e)
    (fine : wanted = true → ¬ m.isWithheld = true → s.world.Accepts) :
    wp permitted (pushIf Session.host wanted m) (fun taken t => taken = true ∧
      (m.isRoutingId = true → s.world.Accepts → t.world.Accepts)) s := by
  by_cases idle : wanted = true → m.isWithheld = true
  · apply wp_mono (wp_pushIf_skipped idle)
    rintro taken t ⟨rfl, rfl⟩
    exact ⟨rfl, fun _ => id⟩
  · obtain ⟨wants, passes⟩ := Classical.not_imp.mp idle
    refine wp_ite (fun _ => ?_) fun other => absurd wants other
    simp only [wp_bind, call, wp_zoom]
    exact Session.wp_pushMsg_accepted passes (fine wants passes) fails fun t onward =>
      ⟨rfl, fun routing _ => onward routing⟩

theorem wp_pushIf_refused (wants : wanted = true) (passes : ¬ m.isWithheld = true)
    (refuses : ¬ s.world.Accepts) :
    wp permitted (pushIf Session.host wanted m) (fun taken _ => taken = false) s := by
  refine wp_ite (fun _ => ?_) fun other => absurd wants other
  simp only [wp_bind, call, wp_zoom]
  exact Session.wp_pushMsg_refused passes refuses fun _ => rfl

theorem wp_pushIf_usable (usable : s.world.Usable) :
    wp permitted (pushIf Session.host wanted m) (fun _ t => t.world.Usable) s := by
  refine wp_ite (fun _ => ?_) fun _ => usable
  simp only [wp_bind, call, wp_zoom]
  exact Session.wp_pushMsg_usable usable

theorem processRoutingIdMsg_taken (fine : s.engine.announces m = true → s.world.Accepts) :
    wp (· ≠ .assertion .processRoutingIdMsg) (processRoutingIdMsg Session.host m)
      (fun _ _ => True) s := by
  have fails (e : Fault) (pipe : e.ofPipe = true) : e ≠ .assertion .processRoutingIdMsg := by
    rintro rfl
    simp [Fault.ofPipe] at pipe
  simp only [processRoutingIdMsg, wp_bind]
  apply wp_mono (wp_pushIf_taken fails fun wants passes => fine (by simp [announces, wants, passes]))
  rintro known t ⟨rfl, same⟩
  apply wp_mono (wp_pushIf_taken fails fun wants _ =>
    same (by simp [Msg.isRoutingId, or_and_self]) (fine (by simp [announces, wants])))
  rintro subscribed u ⟨rfl, -⟩
  exact wp_assert (by simp) fun _ => trivial

theorem processRoutingIdMsg_refused (announces : s.engine.announces m = true)
    (refuses : ¬ s.world.Accepts) :
    wp (· = .assertion .processRoutingIdMsg) (processRoutingIdMsg Session.host m)
      (fun _ _ => False) s := by
  simp only [processRoutingIdMsg, wp_bind]
  by_cases idle : s.engine.options.recvRoutingId = true → (tagged m).isWithheld = true
  · apply wp_mono (wp_pushIf_skipped idle)
    rintro known t ⟨rfl, rfl⟩
    have subscribes : t.engine.own.subscriptionRequired = true := by
      simp only [Engine.announces] at announces
      grind
    have passes : ¬ Msg.isWithheld { data := [1] } = true := by decide
    apply wp_mono (wp_pushIf_refused subscribes passes refuses)
    rintro subscribed u rfl
    exact wp_assert (fun _ => rfl) (by simp)
  · obtain ⟨wants, passes⟩ := Classical.not_imp.mp idle
    apply wp_mono (wp_pushIf_refused wants passes refuses)
    rintro known t rfl
    exact wp_assert (fun _ => rfl) (by simp)

theorem processRoutingIdMsg_usable (usable : s.world.Usable) :
    wp (· = .assertion .processRoutingIdMsg) (processRoutingIdMsg Session.host m)
      (fun r _ => r = (.ok, .init)) s := by
  simp only [processRoutingIdMsg, wp_bind]
  apply wp_mono (wp_pushIf_usable usable)
  intro known t usable
  refine wp_assert (fun _ => rfl) fun _ => ?_
  apply wp_mono (wp_pushIf_usable usable)
  intro subscribed u _
  exact wp_assert (fun _ => rfl) fun _ => rfl

/-- The routing id of an old peer stops the process just when there is something to push
    and the session does not take messages. -/
theorem routing_id_stops_iff_refused (s : Plugged μ (Session μ)) (m : Msg) :
    (processRoutingIdMsg Session.host m s = .error (.assertion .processRoutingIdMsg) ↔
      s.engine.announces m = true ∧ ¬ s.world.Accepts) ∧
    (s.world.Usable → (s.engine.announces m = true → s.world.Accepts) →
      ∃ t, processRoutingIdMsg Session.host m s = .ok ((.ok, .init), t)) := by
  have taken := processRoutingIdMsg_taken (s := s) (m := m)
  refine ⟨⟨fun failed => ?_, fun ⟨announces, refuses⟩ => ?_⟩, fun usable fine => ?_⟩
  · rw [← Classical.not_imp]
    intro fine
    exact wp_error (taken fine) failed rfl
  · have refused := processRoutingIdMsg_refused announces refuses
    cases run : processRoutingIdMsg Session.host m s with
    | error e => rw [wp_error refused run]
    | ok result => exact (wp_ok refused run).elim
  · have ends := processRoutingIdMsg_usable (m := m) usable
    cases run : processRoutingIdMsg Session.host m s with
    | error e =>
      have other := wp_error (taken fine) run
      exact absurd (wp_error ends run) other
    | ok result =>
      have returned := wp_ok ends run
      exact ⟨result.2, by rw [← returned]⟩

def oldPeer (frames : List (List UInt8)) : Wire (NullMechanism × ZapPipe) where
  greetings := [.v2_0]
  reads := [.data (frames.map fun body => .frame { data := body })]

theorem routing_id_stops_iff_refused_fresh : ∃ t, processRoutingIdMsg Session.host { data := [7] }
      (⟨.new { recvRoutingId := true } true,
        (Linked.start { engine := { recvRoutingId := true } } (fun _ => 1) false true).session,
        false⟩ : Plugged (NullMechanism × ZapPipe) _) = .ok ((.ok, .init), t) :=
  (routing_id_stops_iff_refused _ _).2
    (fun _ => ⟨Pair.attached_sound _ _, rfl⟩) fun _ => by decide +kernel

/-- A pipe that the socket has not read, kept over a reconnect, and a pipe that began to
    terminate during the greeting. -/
theorem routing_id_meets_a_full_pipe : (∃ l : Linked (NullMechanism × ZapPipe),
      Reaches (Linked.step .null) Linked.Possible
        (.start { engine := { recvRoutingId := true } } (fun _ => 1) false true) l ∧
      l.Possible (.attach true (oldPeer [[7]])) ∧
      l.step .null (.attach true (oldPeer [[7]])) = .error (.assertion .processRoutingIdMsg)) ∧
    ∃ l : Linked (NullMechanism × ZapPipe), Reaches (Linked.step .null) Linked.Possible
        (.start { engine := { recvRoutingId := true } } (fun _ => 1) false true) l ∧
      l.Possible (.engine .inEvent (oldPeer [[7]])) ∧
      l.step .null (.engine .inEvent (oldPeer [[7]])) =
        .error (.assertion .processRoutingIdMsg) := by
  constructor
  · exact exists_reaches _ _ _
      [.attach true (oldPeer [[7], [1]]), .engine .inEvent { reads := [.lost] }] _ (by decide +kernel)
  · exact exists_reaches _ _ _ [.attach true {}, .processTerm (-1) {}] _ (by decide +kernel)

end Engine

end Zmq
