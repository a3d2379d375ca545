import Zmq.Pipe.Handshake

/-! # What the operations of a pipe do

A sound pair is one whose handshake is in order, whose ends have their sinks and
whose queues can be rolled back. For each operation on a sound pair this file
says once that it succeeds and which outcomes it can have; every later invariant
is a case analysis over those outcomes.
-/

namespace Zmq

open Lib Function

def Command.signal : Command → Signal
  | .hiccup pipe => .hiccup pipe
  | .pipeTerm => .term
  | .pipeTermAck => .ack
  | .activateRead | .activateWrite _ | .pipePeerStats _ | .pipeHwm .. => .talk

namespace Pair

variable (s : Pair)

def handshake : Handshake where
  state e := (s.pipe e).state
  gone e := (s.pipe e).deleted
  box e := (s.mailbox e).map Command.signal
  reads e := (s.pipe e).inPipe
  writes e := (s.pipe e).outPipe
  held e k := (s.queue e k).isSome

structure Sound (s : Pair) : Prop where
  inv : s.handshake.Inv
  sink : ∀ e, (s.pipe e).sink = true
  tidy : ∀ e k q, s.queue e k = some q → q.Tidy

def post (e : End) (command : Command) : Pair :=
  s.setMailbox e.peer (s.mailbox e.peer ++ [command])

def postIf (e : End) (b : Bool) (command : Command) : Pair :=
  if b then s.post e command else s

/-- An endpoint may send until it has confirmed its termination. -/
def Silent (e : End) : Prop :=
  (Phase.said (s.pipe e).state (s.pipe e).deleted).acks = false

section Updates

variable (s : Pair) (e x : End) (p p' : Pipe) (k : Nat) (u u' : Option Upipe) (b : Bool) (c : Command)

@[simp] theorem post_pipe : (s.post e c).pipe = s.pipe := rfl
@[simp] theorem post_queue : (s.post e c).queue = s.queue := rfl
@[simp] theorem post_mailbox : (s.post e c).mailbox e = s.mailbox e := setMailbox_of_peer ..
@[simp] theorem post_mailbox_peer :
    (s.post e c).mailbox e.peer = s.mailbox e.peer ++ [c] := setMailbox_self ..
@[simp] theorem postIf_pipe : (s.postIf e b c).pipe = s.pipe := by cases b <;> rfl
@[simp] theorem postIf_queue : (s.postIf e b c).queue = s.queue := by cases b <;> rfl
@[simp] theorem postIf_mailbox : (s.postIf e b c).mailbox e = s.mailbox e := by
  cases b <;> simp [postIf]
@[simp] theorem postIf_mailbox_peer :
    (s.postIf e b c).mailbox e.peer = s.mailbox e.peer ++ if b then [c] else [] := by
  cases b <;> simp [postIf]
@[simp] theorem postIf_true : s.postIf e true c = s.post e c := rfl
@[simp] theorem postIf_false : s.postIf e false c = s := rfl

/-! Updates are brought into one order: mailbox, queue, pipe, and what is sent. -/

@[simp] theorem setPipe_setPipe : (s.setPipe e p).setPipe e p' = s.setPipe e p' := by
  simp [setPipe]
@[simp] theorem setQueue_setQueue : (s.setQueue e k u).setQueue e k u' = s.setQueue e k u' := by
  simp [setQueue]
@[simp] theorem setPipe_setQueue :
    (s.setPipe e p).setQueue x k u = (s.setQueue x k u).setPipe e p := rfl
@[simp] theorem post_setQueue : (s.post e c).setQueue x k u = (s.setQueue x k u).post e c := rfl
@[simp] theorem post_setPipe : (s.post e c).setPipe x p = (s.setPipe x p).post e c := rfl

theorem send_post (peer : (s.pipe e.peer).deleted = false) : s.send e c = .ok (s.post e c) :=
  send_ok.mpr ⟨peer, rfl⟩

end Updates

section View

variable {s : Pair} {e : End} {u : Upipe}

variable {p : Pipe}

def part (p : Pipe) := (p.state, p.deleted, p.inPipe, p.outPipe, p.sink)

theorem handshake_setPipe (same : part p = part (s.pipe e)) :
    (s.setPipe e p).handshake = s.handshake := by
  simp only [part, Prod.mk.injEq] at same
  apply Handshake.ext <;> funext x <;> rcases x.eq_or_peer e with rfl | rfl <;>
    simp [handshake, *]

theorem handshake_setQueue {k : Nat} {q : Upipe} (here : s.queue e k = some q) :
    (s.setQueue e k (some u)).handshake = s.handshake := by
  apply Handshake.ext <;> funext x <;> try rfl
  funext j
  rcases x.eq_or_peer e with rfl | rfl
  · by_cases same : j = k
    · simp [handshake, same, here]
    · simp [handshake, setQueue_of_ne _ _ same]
  · simp [handshake]

theorem handshake_post (c : Command) : (s.post e c).handshake = s.handshake.say e c.signal := by
  apply Handshake.ext <;> funext x <;> try rfl
  rcases x.eq_or_peer e with rfl | rfl <;> simp [handshake]

theorem handshake_hear {c : Command} {rest : List Command} (at_head : s.mailbox e = c :: rest) :
    (s.setMailbox e rest).handshake = s.handshake.hear e := by
  apply Handshake.ext <;> funext x <;> try rfl
  rcases x.eq_or_peer e with rfl | rfl <;> simp [handshake, at_head]

theorem handshake_move (deleted : p.deleted = (s.pipe e).deleted)
    (inPipe : p.inPipe = (s.pipe e).inPipe) (outPipe : p.outPipe = (s.pipe e).outPipe) :
    (s.setPipe e p).handshake = s.handshake.move e p.state := by
  apply Handshake.ext <;> funext x <;> rcases x.eq_or_peer e with rfl | rfl <;>
    simp [handshake, *]

theorem handshake_answer (deleted : p.deleted = (s.pipe e).deleted)
    (inPipe : p.inPipe = (s.pipe e).inPipe) (outPipe : p.outPipe = none) :
    ((s.setPipe e p).post e .pipeTermAck).handshake = s.handshake.answer e p.state := by
  apply Handshake.ext <;> funext x <;> rcases x.eq_or_peer e with rfl | rfl <;>
    simp [handshake, Command.signal, *]

section

variable (state : p.state = (s.pipe e).state)
include state

theorem handshake_leave (deleted : p.deleted = true)
    (inPipe : p.inPipe = (s.pipe e).inPipe) (outPipe : p.outPipe = (s.pipe e).outPipe) :
    ((s.setQueue e (s.pipe e).inPipe none).setPipe e p).handshake = s.handshake.leave e := by
  apply Handshake.ext <;> funext x <;> rcases x.eq_or_peer e with rfl | rfl <;>
    simp [handshake, apply_update fun _ => Option.isSome, *]

theorem handshake_renew
    (deleted : p.deleted = (s.pipe e).deleted) (inPipe : p.inPipe = (s.pipe e).inPipe + 1)
    (outPipe : p.outPipe = (s.pipe e).outPipe) :
    (((s.setQueue e ((s.pipe e).inPipe + 1) (some u)).setPipe e p).post e
      (.hiccup ((s.pipe e).inPipe + 1))).handshake = s.handshake.renew e := by
  apply Handshake.ext <;> funext x <;> rcases x.eq_or_peer e with rfl | rfl <;>
    simp [handshake, Command.signal, apply_update fun _ => Option.isSome, *]

theorem handshake_replace {old pipe : Nat}
    (deleted : p.deleted = (s.pipe e).deleted) (inPipe : p.inPipe = (s.pipe e).inPipe)
    (outPipe : p.outPipe = some pipe) :
    ((s.setQueue e.peer old none).setPipe e p).handshake = s.handshake.replace e old pipe := by
  apply Handshake.ext <;> funext x <;> rcases x.eq_or_peer e with rfl | rfl <;>
    simp [handshake, apply_update fun _ => Option.isSome, *]

end

end View

/-! ## Sound pairs -/

section Sound

variable {s : Pair} {e x : End} {k : Nat} {c : Command} {p : Pipe}

theorem silent_of_state (stays : (s.pipe e).deleted = false)
    (state : (s.pipe e).state ≠ .termAckSent ∧ (s.pipe e).state ≠ .termReqSent2) : s.Silent e := by
  unfold Silent
  cases here : (s.pipe e).state <;> simp_all [Phase.said, Phase.acks]

theorem silent_of_readable (stays : (s.pipe e).deleted = false)
    (readable : (s.pipe e).readable = true) : s.Silent e := by
  refine silent_of_state stays ?_
  cases here : (s.pipe e).state <;> simp_all [Pipe.readable]

namespace Sound

section

variable (sound : s.Sound)
include sound

theorem inQueue (stays : (s.pipe e).deleted = false) : ∃ q, s.queue e (s.pipe e).inPipe = some q :=
  Option.isSome_iff_exists.mp (sound.inv.reads_held stays)

theorem outQueue (here : (s.pipe e).outPipe = some k) : ∃ q, s.queue e.peer k = some q :=
  Option.isSome_iff_exists.mp (sound.inv.writes_held here)

theorem outPipe (silent : s.Silent e) :
    ∃ k q, (s.pipe e).outPipe = some k ∧ s.queue e.peer k = some q := by
  obtain ⟨k, here⟩ := sound.inv.writes_isSome silent
  obtain ⟨q, there⟩ := sound.outQueue here
  exact ⟨k, q, here, there⟩

theorem peer_stays (silent : s.Silent e) : (s.pipe e.peer).deleted = false :=
  sound.inv.peer_stays silent

theorem send (silent : s.Silent e) (c : Command) : s.send e c = .ok (s.post e c) :=
  send_post _ _ _ (sound.peer_stays silent)

theorem sink_setPipe (sink : p.sink = true) : ∀ x, ((s.setPipe e p).pipe x).sink = true :=
  e.both (by simpa using sink) (by simpa using sound.sink e.peer)

theorem tidy_setQueue {v : Option Upipe} (tidy : ∀ u, v = some u → u.Tidy) (y : End) (j : Nat)
    (q : Upipe) (found : (s.setQueue x k v).queue y j = some q) : q.Tidy := by
  rcases y.eq_or_peer x with rfl | rfl
  · by_cases same : j = k
    · subst same
      exact tidy q (by simpa using found)
    · rw [setQueue_of_ne _ _ same] at found
      exact sound.tidy y j q found
  · rw [setQueue_peer] at found
    exact sound.tidy _ j q found

theorem setPipe (same : part p = part (s.pipe e)) : (s.setPipe e p).Sound where
  inv := by rw [handshake_setPipe same]; exact sound.inv
  sink := sound.sink_setPipe ((congrArg (fun p => p.2.2.2.2) same).trans (sound.sink e))
  tidy := sound.tidy

theorem setQueue {q u : Upipe}
    (here : s.queue x k = some q) (tidy : u.Tidy) : (s.setQueue x k (some u)).Sound where
  inv := by rw [handshake_setQueue here]; exact sound.inv
  sink := sound.sink
  tidy := sound.tidy_setQueue fun _ same => Option.some.inj same ▸ tidy

theorem reads {q q' : Upipe} (here : s.queue x k = some q) (read : q.Read q') :
    (s.setQueue x k (some q')).Sound :=
  sound.setQueue here (read.tidy (sound.tidy _ _ _ here))

theorem post (silent : s.Silent e) (talk : c.signal = .talk) : (s.post e c).Sound where
  inv := by rw [handshake_post, talk]; exact sound.inv.talk silent
  sink := sound.sink
  tidy := sound.tidy

theorem postIf (silent : s.Silent e) {b : Bool}
    (talk : c.signal = .talk) : (s.postIf e b c).Sound := by
  cases b with
  | false => exact sound
  | true => exact sound.post silent talk

end

end Sound

end Sound

/-! ## Outcomes -/

/-- What `read` returns and leaves behind. A `check_read` that returns false ends
    in one of the cases that return nothing. -/
inductive Reading (s : Pair) (e : End) : Option Msg → Pair → Prop where
  | closed : (s.pipe e).readable = false → Reading s e none s
  | dry {q q' : Upipe} : (s.pipe e).readable = true →
      s.queue e (s.pipe e).inPipe = some q → q.Dry q' →
      Reading s e none ((s.setQueue e (s.pipe e).inPipe (some q')).setPipe e
        { s.pipe e with inActive := false })
  | accepted {q q' : Upipe} {m : Msg} : (s.pipe e).readable = true →
      s.queue e (s.pipe e).inPipe = some q → q.Takes m q' →
      m.isCredential = false → m.isDelimiter = false →
      Reading s e (some m) (((s.setQueue e (s.pipe e).inPipe (some q')).setPipe e
        ((s.pipe e).countRead m)).postIf e ((s.pipe e).countRead m).reports
          (.activateWrite ((s.pipe e).countRead m).msgsRead))
  | delimiter {q q' : Upipe} {m : Msg} : (s.pipe e).readable = true →
      s.queue e (s.pipe e).inPipe = some q → q.Takes m q' → m.isDelimiter = true →
      (s.pipe e).state = .active →
      Reading s e none ((s.setQueue e (s.pipe e).inPipe (some q')).setPipe e
        { s.pipe e with state := .delimiterReceived })
  | answered {q q' u u' : Upipe} {m : Msg} {k : Nat} : (s.pipe e).readable = true →
      s.queue e (s.pipe e).inPipe = some q → q.Takes m q' → m.isDelimiter = true →
      (s.pipe e).state = .waitingForDelimiter → (s.pipe e).outPipe = some k →
      s.queue e.peer k = some u → u.Cut u' →
      Reading s e none ((((s.setQueue e (s.pipe e).inPipe (some q')).setQueue e.peer k
        (some u')).setPipe e { s.pipe e with outPipe := none, state := .termAckSent }).post e
          .pipeTermAck)

inductive Writing (s : Pair) (e : End) (m : Msg) : Bool → Pair → Prop where
  | refused : (s.pipe e).outActive = false ∨ (s.pipe e).state ≠ .active → Writing s e m false s
  | full : (s.pipe e).outActive = true → (s.pipe e).state = .active →
      (s.pipe e).checkHwm = false →
      Writing s e m false (s.setPipe e { s.pipe e with outActive := false })
  | written {q : Upipe} {k : Nat} (lock : Bool) : (s.pipe e).outActive = true →
      (s.pipe e).state = .active → (s.pipe e).checkHwm = true → (s.pipe e).outPipe = some k →
      s.queue e.peer k = some q →
      Writing s e m true ((s.setQueue e.peer k (some (q.write m m.more lock))).setPipe e
        ((s.pipe e).countWritten m))

inductive RollingBack (s : Pair) (e : End) : Pair → Prop where
  | skipped : (s.pipe e).outPipe = none → RollingBack s e s
  | cut {u u' : Upipe} {k : Nat} : (s.pipe e).outPipe = some k → s.queue e.peer k = some u →
      u.Cut u' → RollingBack s e (s.setQueue e.peer k (some u'))

inductive Flushing (s : Pair) (e : End) : Pair → Prop where
  | skipped : (s.pipe e).state = .termAckSent ∨ (s.pipe e).outPipe = none → Flushing s e s
  | flushed {q : Upipe} {k : Nat} : s.Silent e → (s.pipe e).outPipe = some k →
      s.queue e.peer k = some q →
      Flushing s e ((s.setQueue e.peer k (some q.flush.2)).postIf e (!q.flush.1) .activateRead)

inductive Hiccuping (s : Pair) (e : End) : Pair → Prop where
  | skipped : (s.pipe e).state ≠ .active → Hiccuping s e s
  | renewed : (s.pipe e).state = .active →
      Hiccuping s e (((s.setQueue e ((s.pipe e).inPipe + 1)
        (some (.new (s.pipe e).conflate))).setPipe e
          { s.pipe e with inPipe := (s.pipe e).inPipe + 1, inActive := true }).post e
            (.hiccup ((s.pipe e).inPipe + 1)))

inductive Terminating (s : Pair) (e : End) : Bool → Pair → Prop where
  | already {delay : Bool} : (s.pipe e).state = .termReqSent1 ∨ (s.pipe e).state = .termReqSent2 ∨
      (s.pipe e).state = .termAckSent →
      Terminating s e delay (s.setPipe e { s.pipe e with delay := delay })
  | asked {delay : Bool} {u u' : Upipe} {k : Nat} (lock : Bool) :
      (s.pipe e).state = .active ∨ (s.pipe e).state = .delimiterReceived →
      (s.pipe e).outPipe = some k → s.queue e.peer k = some u → u.Cut u' →
      Terminating s e delay ((((s.setQueue e.peer k
        (some (u'.write .initDelimiter false lock).flush.2)).setPipe e
          { s.pipe e with delay := delay, state := .termReqSent1, outActive := false }).post e
            .pipeTerm).postIf e (!(u'.write .initDelimiter false lock).flush.1) .activateRead)
  | delayed {u u' : Upipe} {k : Nat} (lock : Bool) : (s.pipe e).state = .waitingForDelimiter →
      (s.pipe e).outPipe = some k → s.queue e.peer k = some u → u.Cut u' →
      Terminating s e true (((s.setQueue e.peer k
        (some (u'.write .initDelimiter false lock).flush.2)).setPipe e
          { s.pipe e with delay := true, outActive := false }).postIf e
            (!(u'.write .initDelimiter false lock).flush.1) .activateRead)
  | answered {u u' : Upipe} {k : Nat} : (s.pipe e).state = .waitingForDelimiter →
      (s.pipe e).outPipe = some k → s.queue e.peer k = some u → u.Cut u' →
      Terminating s e false (((s.setQueue e.peer k (some u')).setPipe e { s.pipe e with
          delay := false, outPipe := none, state := .termAckSent, outActive := false }).post e
            .pipeTermAck)

/-- What `send_disconnect_msg` leaves behind, unless there is a message and no
    queue for it. -/
inductive Disconnecting (s : Pair) (e : End) : Pair → Prop where
  | skipped : (s.pipe e).disconnectMsg.size = 0 → Disconnecting s e s
  | sent {u u' : Upipe} {k : Nat} (lock : Bool) : (s.pipe e).outPipe = some k →
      s.queue e.peer k = some u → u.Cut u' →
      Disconnecting s e (((s.setQueue e.peer k
        (some (u'.write (s.pipe e).disconnectMsg false lock).flush.2)).setPipe e
          { s.pipe e with disconnectMsg := .init }).postIf e
            (!(u'.write (s.pipe e).disconnectMsg false lock).flush.1) .activateRead)

/-- What the oldest command does, once it is out of the mailbox: the pair `s` has
    lost it already. -/
inductive Receiving (s : Pair) (e : End) : Command → Option Event → Pair → Prop where
  | readWoken : (s.pipe e).inActive = false →
      (s.pipe e).state = .active ∨ (s.pipe e).state = .waitingForDelimiter →
      Receiving s e .activateRead (some .readActivated)
        (s.setPipe e { s.pipe e with inActive := true })
  | readIgnored : (s.pipe e).inActive = true ∨
      ¬ ((s.pipe e).state = .active ∨ (s.pipe e).state = .waitingForDelimiter) →
      Receiving s e .activateRead none s
  | writeWoken {n : UInt64} : (s.pipe e).outActive = false → (s.pipe e).state = .active →
      Receiving s e (.activateWrite n) (some .writeActivated)
        (s.setPipe e { s.pipe e with peersMsgsRead := n, outActive := true })
  | writeNoted {n : UInt64} : (s.pipe e).outActive = true ∨ (s.pipe e).state ≠ .active →
      Receiving s e (.activateWrite n) none (s.setPipe e { s.pipe e with peersMsgsRead := n })
  | replaced {u : Upipe} {old pipe : Nat} : (s.pipe e).outPipe = some old →
      s.queue e.peer old = some u →
      Receiving s e (.hiccup pipe) (if (s.pipe e).state = .active then some .hiccuped else none)
        ((s.setQueue e.peer old none).setPipe e { s.pipe e with
            msgsWritten := (s.pipe e).msgsWritten -
              .ofNat ((u.flush.2.drain u.flush.2.pending).countP (!·.more))
            outPipe := some pipe
            outActive := true })
  | published {n : UInt64} : Receiving s e (.pipePeerStats n)
      (some (.statsPublish n ((s.pipe e).msgsWritten - (s.pipe e).peersMsgsRead))) s
  | limited {inhwm outhwm : Int} : Receiving s e (.pipeHwm inhwm outhwm) none
      (s.setPipe e ((s.pipe e).setHwms inhwm outhwm))
  | waits : (s.pipe e).state = .active → (s.pipe e).delay = true →
      Receiving s e .pipeTerm none (s.setPipe e { s.pipe e with state := .waitingForDelimiter })
  | answers : (s.pipe e).state = .active ∧ (s.pipe e).delay = false ∨
      (s.pipe e).state = .delimiterReceived →
      Receiving s e .pipeTerm none ((s.setPipe e
        { s.pipe e with outPipe := none, state := .termAckSent }).post e .pipeTermAck)
  | crosses : (s.pipe e).state = .termReqSent1 →
      Receiving s e .pipeTerm none ((s.setPipe e
        { s.pipe e with outPipe := none, state := .termReqSent2 }).post e .pipeTermAck)
  | leaves : (s.pipe e).state = .termAckSent ∨ (s.pipe e).state = .termReqSent2 →
      Receiving s e .pipeTermAck (some .pipeTerminated)
        ((s.setQueue e (s.pipe e).inPipe none).setPipe e { s.pipe e with deleted := true })
  | answersAndLeaves : (s.pipe e).state = .termReqSent1 →
      Receiving s e .pipeTermAck (some .pipeTerminated)
        (((s.setQueue e (s.pipe e).inPipe none).setPipe e
          { s.pipe e with outPipe := none, deleted := true }).post e .pipeTermAck)

/-! ## Every operation on a sound pair has an outcome -/

namespace Sound

variable {s : Pair} {e : End}

section

variable (sound : s.Sound)
include sound

theorem silent_of_outPipe {k : Nat} (here : (s.pipe e).outPipe = some k) : s.Silent e := by
  unfold Silent
  by_contra answered
  have dropped := (sound.inv.chain e.peer).dropped.mpr (by simpa [handshake] using answered)
  simp [handshake, here] at dropped

theorem sendPipeTermAck (silent : s.Silent e) (state : PipeState) :
    s.sendPipeTermAck e state = .ok ((s.setPipe e
      { s.pipe e with outPipe := none, state := state }).post e .pipeTermAck) := by
  simp [Pair.sendPipeTermAck, send_post, sound.peer_stays silent]

theorem cuts (silent : s.Silent e) : ∃ k u u', (s.pipe e).outPipe = some k ∧
    s.queue e.peer k = some u ∧ u.rollback u.unfinished = some u' ∧ u.Cut u' := by
  obtain ⟨k, u, here, found⟩ := sound.outPipe silent
  obtain ⟨u', ends, cut⟩ := Upipe.rollback_outcome (sound.tidy _ _ _ found)
  exact ⟨k, u, u', here, found, ends, cut⟩

theorem rollback : ∃ t, s.rollback e = .ok t ∧ RollingBack s e t := by
  cases here : (s.pipe e).outPipe with
  | none => exact ⟨s, by simp [Pair.rollback, here], .skipped here⟩
  | some k =>
    obtain ⟨u, found⟩ := sound.outQueue here
    obtain ⟨u', ends, cut⟩ := Upipe.rollback_outcome (sound.tidy _ _ _ found)
    exact ⟨_, by simp [Pair.rollback, here, deref, found, ends], .cut here found cut⟩

theorem flush : ∃ t, s.flush e = .ok t ∧ Flushing s e t := by
  by_cases acked : (s.pipe e).state = .termAckSent
  · exact ⟨s, by simp [Pair.flush, acked], .skipped (.inl acked)⟩
  cases here : (s.pipe e).outPipe with
  | none => exact ⟨s, by simp [Pair.flush, here], .skipped (.inr here)⟩
  | some k =>
    obtain ⟨q, found⟩ := sound.outQueue here
    have silent := sound.silent_of_outPipe here
    refine ⟨_, ?_, .flushed silent here found⟩
    have sends := (sound.setQueue found (Upipe.flush_tidy (sound.tidy _ _ _ found))).send
      (e := e) silent .activateRead
    cases quiet : q.flush.1 <;> simp [Pair.flush, acked, here, deref, found, quiet, sends]

section

variable (stays : (s.pipe e).deleted = false)
include stays

theorem processDelimiter (readable : (s.pipe e).readable = true) :
    (s.pipe e).state = .active ∧ s.processDelimiter e =
      .ok (s.setPipe e { s.pipe e with state := .delimiterReceived }) ∨
    (s.pipe e).state = .waitingForDelimiter ∧ ∃ k u u', (s.pipe e).outPipe = some k ∧
      s.queue e.peer k = some u ∧ u.Cut u' ∧ s.processDelimiter e =
        .ok (((s.setQueue e.peer k (some u')).setPipe e
          { s.pipe e with outPipe := none, state := .termAckSent }).post e .pipeTermAck) := by
  have silent := silent_of_readable stays readable
  have states : (s.pipe e).state = .active ∨ (s.pipe e).state = .waitingForDelimiter := by
    cases here : (s.pipe e).state <;> simp_all [Pipe.readable]
  rcases states with state | state
  · exact .inl ⟨state, by simp [Pair.processDelimiter, state]⟩
  · obtain ⟨k, u, u', here, found, ends, cut⟩ := sound.cuts silent
    refine .inr ⟨state, k, u, u', here, found, cut, ?_⟩
    have rolled : s.rollback e = .ok (s.setQueue e.peer k (some u')) := by
      simp [Pair.rollback, here, deref, found, ends]
    have acked := (sound.setQueue found cut.tidy).sendPipeTermAck (e := e) silent .termAckSent
    simp [Pair.processDelimiter, state, rolled, acked]

theorem takeDelimiter (readable : (s.pipe e).readable = true) {q q' : Upipe} {m : Msg}
    (here : s.queue e (s.pipe e).inPipe = some q) (takes : q.Takes m q')
    (last : m.isDelimiter = true) :
    ∃ t, (s.setQueue e (s.pipe e).inPipe (some q')).processDelimiter e = .ok t ∧
      Reading s e none t := by
  rcases (sound.reads here (.takes takes)).processDelimiter stays readable with
    ⟨state, ends⟩ | ⟨state, k, u, u', out, found, cut, ends⟩
  · exact ⟨_, ends, .delimiter readable here takes last state⟩
  · rw [setQueue_peer] at found
    exact ⟨_, ends, .answered readable here takes last state out found cut⟩

theorem read : ∃ r t, s.read e = .ok (r, t) ∧ Reading s e r t := by
  cases readable : (s.pipe e).readable with
  | false => exact ⟨none, s, by simp [Pair.read, readable], .closed readable⟩
  | true =>
    obtain ⟨q, here⟩ := sound.inQueue stays
    rcases Upipe.readData_outcome q with ⟨q', result, dry⟩ | ⟨m, q', result, data, takes⟩
    · refine ⟨none, _, ?_, .dry readable here dry⟩
      simp [Pair.read, readable, deref, here, result]
    · cases last : m.isDelimiter with
      | true =>
        obtain ⟨t, ends, reading⟩ := sound.takeDelimiter stays readable here takes last
        exact ⟨none, t, by simp [Pair.read, readable, deref, here, result, last, ends], reading⟩
      | false =>
        refine ⟨some m, _, ?_, .accepted readable here takes data last⟩
        have silent := silent_of_readable stays readable
        have peer := sound.peer_stays silent
        cases reports : ((s.pipe e).countRead m).reports <;>
          simp [Pair.read, readable, deref, here, result, last, acceptRead, reports, send_post,
            peer]

theorem checkRead : ∃ b t, s.checkRead e = .ok (b, t) ∧ ((b = false ∧ Reading s e none t) ∨
      b = true ∧ ∃ q q', (s.pipe e).readable = true ∧ s.queue e (s.pipe e).inPipe = some q ∧
        q.Peeked q' ∧ t = s.setQueue e (s.pipe e).inPipe (some q')) := by
  cases readable : (s.pipe e).readable with
  | false =>
    exact ⟨false, s, by simp [Pair.checkRead, readable], .inl ⟨rfl, .closed readable⟩⟩
  | true =>
    obtain ⟨q, here⟩ := sound.inQueue stays
    cases ready : q.checkRead.1 with
    | false =>
      refine ⟨false, _, ?_, .inl ⟨rfl, .dry readable here (Upipe.checkRead_dry ready)⟩⟩
      simp [Pair.checkRead, readable, deref, here, ready]
    | true =>
      obtain ⟨peeked, m, q', probe, result, takes⟩ := Upipe.checkRead_ready ready
      cases last : m.isDelimiter with
      | true =>
        obtain ⟨t, ends, reading⟩ := sound.takeDelimiter stays readable here takes last
        refine ⟨false, t, ?_, .inl ⟨rfl, reading⟩⟩
        simp [Pair.checkRead, readable, deref, here, ready, probe, last, result, ends]
      | false =>
        refine ⟨true, _, ?_, .inr ⟨rfl, q, _, rfl, here, peeked, rfl⟩⟩
        simp [Pair.checkRead, readable, deref, here, ready, probe, last]

theorem write (m : Msg) (lock : Bool) :
    ∃ b t, s.write e m lock = .ok (b, t) ∧ Writing s e m b t := by
  by_cases closed : (s.pipe e).outActive = false ∨ (s.pipe e).state ≠ .active
  · refine ⟨false, s, ?_, .refused closed⟩
    have shut : (!(s.pipe e).outActive || (s.pipe e).state != .active) = true := by
      simpa using closed
    simp [Pair.write, checkWrite, shut]
  · obtain ⟨live, state⟩ : (s.pipe e).outActive = true ∧ (s.pipe e).state = .active := by
      simpa using closed
    have shut : (!(s.pipe e).outActive || (s.pipe e).state != .active) = false := by
      simp [live, state]
    cases room : (s.pipe e).checkHwm with
    | false =>
      exact ⟨false, _, by simp [Pair.write, checkWrite, shut, room], .full live state room⟩
    | true =>
      obtain ⟨k, q, here, found⟩ :=
        sound.outPipe (silent_of_state stays (by simp [*]))
      refine ⟨true, _, ?_, .written lock live state room here found⟩
      simp [Pair.write, checkWrite, shut, room, here, deref, found]

theorem hiccup : ∃ t, s.hiccup e = .ok t ∧ Hiccuping s e t := by
  by_cases state : (s.pipe e).state = .active
  · have peer := sound.peer_stays (silent_of_state stays (by simp [*]))
    exact ⟨_, by simp [Pair.hiccup, state, send_post, peer], .renewed state⟩
  · exact ⟨s, by simp [Pair.hiccup, state], .skipped state⟩

theorem terminate (delay lock : Bool) :
    ∃ t, s.terminate e delay lock = .ok t ∧ Terminating s e delay t := by
  by_cases closed : (s.pipe e).state = .termReqSent1 ∨ (s.pipe e).state = .termReqSent2 ∨
      (s.pipe e).state = .termAckSent
  · refine ⟨_, ?_, .already closed⟩
    rcases closed with state | state | state <;> simp [Pair.terminate, state]
  have silent : s.Silent e := silent_of_state stays (by simp_all)
  obtain ⟨k, u, u', here, found, ends, cut⟩ := sound.cuts silent
  have peer := sound.peer_stays silent
  cases state : (s.pipe e).state with
  | termReqSent1 | termReqSent2 | termAckSent => simp [state] at closed
  | active | delimiterReceived =>
    refine ⟨_, ?_, .asked lock (by simp [state]) here found cut⟩
    cases quiet : (u'.write .initDelimiter false lock).flush.1 <;>
      simp [Pair.terminate, state, send_post, peer, Pair.writeDelimiter, Pair.rollback, here,
        deref, found, ends, Pair.flush, quiet]
  | waitingForDelimiter =>
    cases delay with
    | true =>
      refine ⟨_, ?_, .delayed lock state here found cut⟩
      cases quiet : (u'.write .initDelimiter false lock).flush.1 <;>
        simp [Pair.terminate, state, send_post, peer, Pair.writeDelimiter, Pair.rollback, here,
          deref, found, ends, Pair.flush, quiet]
    | false =>
      refine ⟨_, ?_, .answered state here found cut⟩
      simp [Pair.terminate, state, Pair.writeDelimiter, Pair.rollback, here, deref, found,
        ends, Pair.sendPipeTermAck, send_post, peer]

end

theorem sendDisconnectMsg (lock : Bool) :
    (s.sendDisconnectMsg e lock = .error .nullPointer ∧ 0 < (s.pipe e).disconnectMsg.size ∧
      (s.pipe e).outPipe = none) ∨ ∃ t, s.sendDisconnectMsg e lock = .ok t ∧ Disconnecting s e t := by
  by_cases size : 0 < (s.pipe e).disconnectMsg.size
  · cases here : (s.pipe e).outPipe with
    | none => exact .inl ⟨by simp [Pair.sendDisconnectMsg, size, Pair.rollback, here], size, rfl⟩
    | some k =>
      obtain ⟨u, found⟩ := sound.outQueue here
      obtain ⟨u', ends, cut⟩ := Upipe.rollback_outcome (sound.tidy _ _ _ found)
      have silent := sound.silent_of_outPipe here
      have peer := sound.peer_stays silent
      have acked : (s.pipe e).state ≠ .termAckSent := by
        intro state
        simp [Silent, state, Phase.said, Phase.acks] at silent
      refine .inr ⟨_, ?_, .sent lock here found cut⟩
      cases quiet : (u'.write (s.pipe e).disconnectMsg false lock).flush.1 <;>
        simp [Pair.sendDisconnectMsg, size, Pair.rollback, here, deref, found, ends, Pair.flush,
          acked, quiet, send_post, peer]
  · exact .inr ⟨s, by simp [Pair.sendDisconnectMsg, size], .skipped (by omega)⟩

theorem deliver {c : Command} {rest : List Command} (at_head : s.mailbox e = c :: rest) :
    ∃ ev t, s.deliver e = .ok (t, ev) ∧ Receiving (s.setMailbox e rest) e c ev t := by
  have stays : (s.pipe e).deleted = false := by
    by_contra left
    have := sound.inv.box_of_gone (e := e) (by simpa [handshake] using left)
    simp [handshake, at_head] at this
  have signals : s.handshake.box e = c.signal :: rest.map Command.signal := by
    simp [handshake, at_head]
  have sinks := sound.sink e
  have runs : s.deliver e = (s.setMailbox e rest).processCommand e c := by
    simp [Pair.deliver, at_head, stays]
  rw [runs]
  cases c with
  | activateRead =>
    by_cases woken : (s.pipe e).inActive = false ∧
        ((s.pipe e).state = .active ∨ (s.pipe e).state = .waitingForDelimiter)
    · refine ⟨_, _, ?_, .readWoken woken.1 woken.2⟩
      simp [processCommand, processActivateRead, woken, notify, sinks]
    · refine ⟨_, _, ?_, .readIgnored ?_⟩
      · simpa [processCommand, processActivateRead, notify, sinks] using woken
      · rw [setMailbox_pipe]
        by_cases awake : (s.pipe e).inActive = true
        · exact .inl awake
        · exact .inr fun states => woken ⟨by simpa using awake, states⟩
  | activateWrite n =>
    by_cases woken : (s.pipe e).outActive = false ∧ (s.pipe e).state = .active
    · refine ⟨_, _, ?_, .writeWoken woken.1 woken.2⟩
      simp [processCommand, processActivateWrite, woken, notify, sinks]
    · refine ⟨_, _, ?_, .writeNoted ?_⟩
      · simpa [processCommand, processActivateWrite, notify, sinks] using woken
      · rw [setMailbox_pipe]
        by_cases awake : (s.pipe e).outActive = true
        · exact .inl awake
        · exact .inr fun state => woken ⟨by simpa using awake, state⟩
  | hiccup pipe =>
    obtain ⟨old, here, -⟩ := sound.inv.replace signals
    obtain ⟨u, found⟩ := sound.outQueue here
    refine ⟨_, _, ?_, .replaced here found⟩
    change (s.pipe e).outPipe = some old at here
    by_cases state : (s.pipe e).state = .active <;>
      simp [processCommand, processHiccup, here, deref, found, state, notify, sinks]
  | pipePeerStats n => exact ⟨_, _, by simp [processCommand], .published⟩
  | pipeTerm =>
    have states := (sound.inv.state_of_term signals).2
    have peer : (s.pipe e.peer).deleted = false := by
      apply sound.peer_stays (silent_of_state stays _)
      rcases states with state | state | state <;> simp_all [handshake]
    rcases states with state | state | state <;> simp only [handshake] at state
    · cases delay : (s.pipe e).delay with
      | true =>
        exact ⟨_, _, by simp [processCommand, processPipeTerm, state, delay], .waits state delay⟩
      | false =>
        refine ⟨_, _, ?_, .answers (.inl ⟨state, delay⟩)⟩
        simp [processCommand, processPipeTerm, state, delay, Pair.sendPipeTermAck, send_post, peer]
    · refine ⟨_, _, ?_, .answers (.inr state)⟩
      simp [processCommand, processPipeTerm, state, Pair.sendPipeTermAck, send_post, peer]
    · refine ⟨_, _, ?_, .crosses state⟩
      simp [processCommand, processPipeTerm, state, Pair.sendPipeTermAck, send_post, peer]
  | pipeTermAck =>
    have states := (sound.inv.state_of_ack signals).2.2
    obtain ⟨q, found⟩ := sound.inQueue stays
    rcases states with state | state | state <;> simp only [handshake] at state
    · have peer : (s.pipe e.peer).deleted = false :=
        sound.peer_stays (silent_of_state stays (by simp [*]))
      refine ⟨_, _, ?_, .answersAndLeaves state⟩
      simp [processCommand, processPipeTermAck, sinks, state, Pair.sendPipeTermAck, send_post, peer,
        deallocate, deref, found]
    · refine ⟨_, _, ?_, .leaves (.inl state)⟩
      simp [processCommand, processPipeTermAck, sinks, state, deallocate, deref, found]
    · refine ⟨_, _, ?_, .leaves (.inr state)⟩
      simp [processCommand, processPipeTermAck, sinks, state, deallocate, deref, found]
  | pipeHwm inhwm outhwm => exact ⟨_, _, by simp [processCommand], .limited⟩

end

end Sound

/-! ## Outcomes of sound pairs are sound -/

section Preserved

variable {s t : Pair} {e : End} {c : Command} {p : Pipe}

section

variable (sound : s.Sound) (stays : (s.pipe e).deleted = false)
include sound stays

theorem Sound.answer
    (state : (s.pipe e).state = .waitingForDelimiter) (deleted : p.deleted = (s.pipe e).deleted)
    (inPipe : p.inPipe = (s.pipe e).inPipe) (outPipe : p.outPipe = none)
    (acked : p.state = .termAckSent) (sink : p.sink = true) :
    ((s.setPipe e p).post e .pipeTermAck).Sound where
  inv := by
    rw [handshake_answer deleted inPipe outPipe, acked]
    exact sound.inv.answer stays state
  sink := sound.sink_setPipe sink
  tidy := sound.tidy

theorem Sound.ask
    (state : (s.pipe e).state = .active ∨ (s.pipe e).state = .delimiterReceived)
    (deleted : p.deleted = (s.pipe e).deleted) (inPipe : p.inPipe = (s.pipe e).inPipe)
    (outPipe : p.outPipe = (s.pipe e).outPipe) (asked : p.state = .termReqSent1)
    (sink : p.sink = true) : ((s.setPipe e p).post e .pipeTerm).Sound where
  inv := by
    rw [handshake_post, handshake_move deleted inPipe outPipe, asked]
    exact sound.inv.ask stays state
  sink := sound.sink_setPipe sink
  tidy := sound.tidy

theorem Sound.delimiter
    (state : (s.pipe e).state = .active) :
    (s.setPipe e { s.pipe e with state := .delimiterReceived }).Sound where
  inv := by
    rw [handshake_move (s := s) (e := e) (p := { s.pipe e with state := .delimiterReceived })
      rfl rfl rfl]
    apply sound.inv.relabel <;> simp [handshake, stays, state, Phase.said, Phase.heard]
  sink := sound.sink_setPipe (sound.sink e)
  tidy := sound.tidy

end

theorem Reading.sound {r : Option Msg} (reading : Reading s e r t) (sound : s.Sound)
    (stays : (s.pipe e).deleted = false) : t.Sound := by
  cases reading with
  | closed => exact sound
  | dry readable here dry => exact (sound.reads here (.dry dry)).setPipe rfl
  | accepted readable here takes data last =>
    refine ((sound.reads here (.takes takes)).setPipe (by simp [part])).postIf ?_ rfl
    simpa [Silent] using silent_of_readable stays readable
  | delimiter readable here takes last state =>
    exact (sound.reads here (.takes takes)).delimiter stays state
  | answered readable here takes last state out found cut =>
    have next := (sound.reads here (.takes takes)).setQueue (x := e.peer)
      (by rw [setQueue_peer]; exact found) cut.tidy
    exact next.answer stays state rfl rfl rfl rfl (sound.sink e)

theorem Writing.sound {m : Msg} {b : Bool} (writing : Writing s e m b t) (sound : s.Sound) :
    t.Sound := by
  cases writing with
  | refused => exact sound
  | full => exact sound.setPipe rfl
  | written lock live state room here found =>
    exact (sound.setQueue found (Upipe.write_tidy lock id (sound.tidy _ _ _ found))).setPipe
      (by simp [part])

theorem RollingBack.sound (rolling : RollingBack s e t) (sound : s.Sound) : t.Sound := by
  cases rolling with
  | skipped => exact sound
  | cut here found cut => exact sound.setQueue found cut.tidy

theorem Flushing.sound (flushing : Flushing s e t) (sound : s.Sound) : t.Sound := by
  cases flushing with
  | skipped => exact sound
  | flushed silent here found =>
    exact (sound.setQueue found (Upipe.flush_tidy (sound.tidy _ _ _ found))).postIf silent rfl

theorem Hiccuping.sound (hiccuping : Hiccuping s e t) (sound : s.Sound)
    (stays : (s.pipe e).deleted = false) : t.Sound := by
  cases hiccuping with
  | skipped => exact sound
  | renewed state =>
    refine ⟨?_, sound.sink_setPipe (sound.sink e), sound.tidy_setQueue fun _ same => ?_⟩
    · rw [handshake_renew]
      · exact sound.inv.renew stays state
      all_goals rfl
    · exact Option.some.inj same ▸ Upipe.new_tidy _

theorem Terminating.sound {delay : Bool} (terminating : Terminating s e delay t) (sound : s.Sound)
    (stays : (s.pipe e).deleted = false) : t.Sound := by
  have written {u' : Upipe} (lock : Bool) (tidy : u'.Tidy) :
      (u'.write .initDelimiter false lock).flush.2.Tidy :=
    Upipe.flush_tidy (Upipe.write_tidy lock nofun tidy)
  cases terminating with
  | already => exact sound.setPipe rfl
  | asked lock state here found cut =>
    refine Sound.postIf (c := .activateRead) ?_ ?_ rfl
    · exact (sound.setQueue found (written lock cut.tidy)).ask stays state rfl rfl rfl rfl
        (sound.sink e)
    · exact silent_of_state (by simpa using stays) (by simp)
  | delayed lock state here found cut =>
    refine Sound.postIf (c := .activateRead) ?_ ?_ rfl
    · exact (sound.setQueue found (written lock cut.tidy)).setPipe rfl
    · exact silent_of_state (by simpa using stays) (by simp [state])
  | answered state here found cut =>
    exact (sound.setQueue found cut.tidy).answer stays state rfl rfl rfl rfl (sound.sink e)

theorem Disconnecting.sound (disconnecting : Disconnecting s e t) (sound : s.Sound) : t.Sound := by
  cases disconnecting with
  | skipped => exact sound
  | sent lock here found cut =>
    have tidy := Upipe.flush_tidy (Upipe.write_tidy (m := (s.pipe e).disconnectMsg)
      lock (fun no : false = true => nomatch no) cut.tidy)
    refine Sound.postIf (c := .activateRead) ?_ ?_ rfl
    · exact (sound.setQueue found tidy).setPipe rfl
    · simpa [Silent] using sound.silent_of_outPipe here

theorem Sound.hear (sound : s.Sound) {rest : List Command} (at_head : s.mailbox e = c :: rest)
    (talk : c.signal = .talk) : (s.setMailbox e rest).Sound where
  inv := by
    have signals : s.handshake.box e = .talk :: rest.map Command.signal := by
      simp [handshake, at_head, talk]
    rw [handshake_hear at_head]
    exact sound.inv.hearTalk signals
  sink := sound.sink
  tidy := sound.tidy

theorem Receiving.sound {rest : List Command} {ev : Option Event}
    (at_head : s.mailbox e = c :: rest) (receiving : Receiving (s.setMailbox e rest) e c ev t)
    (sound : s.Sound) : t.Sound := by
  have signals : s.handshake.box e = c.signal :: rest.map Command.signal := by
    simp [handshake, at_head]
  have heard := handshake_hear at_head
  cases receiving with
  | readWoken | writeWoken | writeNoted | limited => exact (sound.hear at_head rfl).setPipe rfl
  | readIgnored | published => exact sound.hear at_head rfl
  | replaced here found =>
    obtain ⟨old, same, next⟩ := sound.inv.replace signals
    obtain rfl := Option.some.inj (same.symm.trans here)
    refine ⟨?_, sound.sink_setPipe (sound.sink e), sound.tidy_setQueue nofun⟩
    rw [handshake_replace, heard]
    · exact next
    all_goals rfl
  | waits state delay =>
    refine ⟨?_, sound.sink_setPipe (sound.sink e), sound.tidy⟩
    rw [handshake_move, heard]
    · exact sound.inv.wait signals (.inl state)
    all_goals rfl
  | answers state =>
    refine ⟨?_, sound.sink_setPipe (sound.sink e), sound.tidy⟩
    rw [handshake_answer, heard, ← Handshake.answer_move]
    · have states := state.imp_left And.left
      refine (sound.inv.wait signals states).answer ?_ (by simp)
      exact (sound.inv.state_of_term signals).1
    all_goals rfl
  | crosses state =>
    refine ⟨?_, sound.sink_setPipe (sound.sink e), sound.tidy⟩
    rw [handshake_answer, heard]
    · exact sound.inv.cross signals state
    all_goals rfl
  | leaves state =>
    refine ⟨?_, sound.sink_setPipe (sound.sink e), sound.tidy_setQueue nofun⟩
    rw [handshake_leave, heard]
    · exact sound.inv.leave signals state
    all_goals rfl
  | answersAndLeaves state =>
    refine ⟨?_, sound.sink_setPipe (sound.sink e), sound.tidy_setQueue nofun⟩
    have next := sound.inv.answerAndLeave signals state
    rw [← heard, ← handshake_answer (s := s.setMailbox e rest) (e := e)
        (p := { s.pipe e with outPipe := none, state := .termReqSent1 }) rfl rfl rfl,
      ← handshake_leave (e := e)
        (p := { s.pipe e with outPipe := none, state := .termReqSent1, deleted := true })
        (by simp) rfl (by simp) (by simp)] at next
    simpa [← (show (s.pipe e).state = .termReqSent1 from state)] using next

end Preserved

/-! ## All actions -/

inductive Outcome (s : Pair) (e : End) : Action → Pair → Prop where
  | peeked {q q' : Upipe} : (s.pipe e).readable = true → s.queue e (s.pipe e).inPipe = some q →
      q.Peeked q' → Outcome s e .checkRead (s.setQueue e (s.pipe e).inPipe (some q'))
  | checked {t : Pair} : Reading s e none t → Outcome s e .checkRead t
  | read {r : Option Msg} {t : Pair} : Reading s e r t → Outcome s e .read t
  | writable : Outcome s e .checkWrite s
  | full : (s.pipe e).outActive = true → (s.pipe e).state = .active →
      (s.pipe e).checkHwm = false →
      Outcome s e .checkWrite (s.setPipe e { s.pipe e with outActive := false })
  | write {m : Msg} {lock b : Bool} {t : Pair} : Writing s e m b t → Outcome s e (.write m lock) t
  | rollback {t : Pair} : RollingBack s e t → Outcome s e .rollback t
  | flush {t : Pair} : Flushing s e t → Outcome s e .flush t
  | hiccup {t : Pair} : Hiccuping s e t → Outcome s e .hiccup t
  | setNodelay : Outcome s e .setNodelay (s.setPipe e { s.pipe e with delay := false })
  | terminate {delay lock : Bool} {t : Pair} : Terminating s e delay t →
      Outcome s e (.terminate delay lock) t
  | setHwms {inhwm outhwm : Int} : Outcome s e (.setHwms inhwm outhwm)
      (s.setPipe e ((s.pipe e).setHwms inhwm outhwm))
  | setHwmsBoost {inhwm outhwm : Int} : Outcome s e (.setHwmsBoost inhwm outhwm)
      (s.setPipe e ((s.pipe e).setHwmsBoost inhwm outhwm))
  | sendHwmsToPeer {inhwm outhwm : Int} : s.Silent e →
      Outcome s e (.sendHwmsToPeer inhwm outhwm) (s.post e (.pipeHwm inhwm outhwm))
  | sendStatsToPeer : s.Silent e → Outcome s e .sendStatsToPeer
      (s.post e (.pipePeerStats ((s.pipe e).msgsWritten - (s.pipe e).peersMsgsRead)))
  | sendDisconnectMsg {lock : Bool} {t : Pair} : Disconnecting s e t →
      Outcome s e (.sendDisconnectMsg lock) t
  | setDisconnectMsg {disconnect : List UInt8} : Outcome s e (.setDisconnectMsg disconnect)
      (s.setPipe e { s.pipe e with disconnectMsg := { data := disconnect } })
  | deliver {c : Command} {rest : List Command} {ev : Option Event} {t : Pair} :
      s.mailbox e = c :: rest → Receiving (s.setMailbox e rest) e c ev t → Outcome s e .deliver t

end Pair

/-- The two calls that send whatever the state of the pipe. -/
def Action.tells : Action → Bool
  | .sendHwmsToPeer .. | .sendStatsToPeer => true
  | _ => false

namespace Pair

variable {s t : Pair} {e : End} {a : Action}

theorem checkWrite_outcome (s : Pair) (e : End) : Outcome s e .checkWrite (s.checkWrite e).2 := by
  unfold checkWrite
  split
  · exact .writable
  · rename_i open_
    simp only [Bool.or_eq_true, Bool.not_eq_true', bne_iff_ne, not_or, Bool.not_eq_false,
      Decidable.not_not] at open_
    split
    · rename_i full
      exact .full open_.1 open_.2 (by simpa using full)
    · exact .writable

/-- On a sound pair every action succeeds. The exceptions are the calls that send
    without looking at the state, and a disconnect message without a queue. -/
theorem Sound.step (sound : s.Sound) (can : s.CanAct (e, a)) (told : a.tells = true → s.Silent e) :
    (∃ t, s.step (e, a) = .ok t ∧ Outcome s e a t) ∨
      s.step (e, a) = .error .nullPointer ∧ ∃ lock, a = .sendDisconnectMsg lock := by
  cases a with
  | checkRead =>
    obtain ⟨b, t, ends, ⟨-, reading⟩ | ⟨-, q, q', readable, here, peeked, rfl⟩⟩ := sound.checkRead can
    · exact .inl ⟨t, by simp [Pair.step, ends, Except.map], .checked reading⟩
    · exact .inl ⟨_, by simp [Pair.step, ends, Except.map], .peeked readable here peeked⟩
  | read =>
    obtain ⟨r, t, ends, reading⟩ := sound.read can
    exact .inl ⟨t, by simp [Pair.step, ends, Except.map], .read reading⟩
  | checkWrite => exact .inl ⟨_, rfl, s.checkWrite_outcome e⟩
  | write m lock =>
    obtain ⟨b, t, ends, writing⟩ := sound.write can m lock
    exact .inl ⟨t, by simp [Pair.step, ends, Except.map], .write writing⟩
  | rollback =>
    obtain ⟨t, ends, rolling⟩ := sound.rollback (e := e)
    exact .inl ⟨t, ends, .rollback rolling⟩
  | flush =>
    obtain ⟨t, ends, flushing⟩ := sound.flush (e := e)
    exact .inl ⟨t, ends, .flush flushing⟩
  | hiccup =>
    obtain ⟨t, ends, hiccuping⟩ := sound.hiccup can
    exact .inl ⟨t, ends, .hiccup hiccuping⟩
  | setNodelay => exact .inl ⟨_, rfl, .setNodelay⟩
  | terminate delay lock =>
    obtain ⟨t, ends, terminating⟩ := sound.terminate can delay lock
    exact .inl ⟨t, ends, .terminate terminating⟩
  | setHwms => exact .inl ⟨_, rfl, .setHwms⟩
  | setHwmsBoost => exact .inl ⟨_, rfl, .setHwmsBoost⟩
  | sendHwmsToPeer => exact .inl ⟨_, sound.send (told rfl) _, .sendHwmsToPeer (told rfl)⟩
  | sendStatsToPeer => exact .inl ⟨_, sound.send (told rfl) _, .sendStatsToPeer (told rfl)⟩
  | sendDisconnectMsg lock =>
    rcases sound.sendDisconnectMsg (e := e) lock with ⟨null, -⟩ | ⟨t, ends, disconnecting⟩
    · exact .inr ⟨null, lock, rfl⟩
    · exact .inl ⟨t, ends, .sendDisconnectMsg disconnecting⟩
  | setDisconnectMsg => exact .inl ⟨_, rfl, .setDisconnectMsg⟩
  | deliver =>
    obtain ⟨c, rest, at_head⟩ := List.exists_cons_of_ne_nil (show s.mailbox e ≠ [] from can)
    obtain ⟨ev, t, ends, receiving⟩ := sound.deliver at_head
    exact .inl ⟨t, by simp [Pair.step, ends, Except.map], .deliver at_head receiving⟩

theorem Sound.outcome (sound : s.Sound) (can : s.CanAct (e, a)) (told : a.tells = true → s.Silent e)
    (taken : s.step (e, a) = .ok t) : Outcome s e a t := by
  rcases sound.step can told with ⟨t', ends, outcome⟩ | ⟨null, -⟩
  · obtain rfl : t' = t := by simpa [ends] using taken
    exact outcome
  · simp [null] at taken

section

variable (sound : s.Sound)
include sound

theorem Sound.reading {r : Option Msg} (stays : (s.pipe e).deleted = false)
    (done : s.read e = .ok (r, t)) : Reading s e r t := by
  obtain ⟨r', t', ends, reading⟩ := sound.read stays
  obtain ⟨rfl, rfl⟩ : r' = r ∧ t' = t := by simpa [ends] using done
  exact reading

theorem Sound.writing {m : Msg} {lock b : Bool} (stays : (s.pipe e).deleted = false)
    (done : s.write e m lock = .ok (b, t)) : Writing s e m b t := by
  obtain ⟨b', t', ends, writing⟩ := sound.write stays m lock
  obtain ⟨rfl, rfl⟩ : b' = b ∧ t' = t := by simpa [ends] using done
  exact writing

theorem Sound.flushing (done : s.flush e = .ok t) : Flushing s e t := by
  obtain ⟨t', ends, flushing⟩ := sound.flush (e := e)
  obtain rfl : t' = t := by simpa [ends] using done
  exact flushing

theorem Sound.receiving {ev : Option Event} (waiting : s.mailbox e ≠ [])
    (done : s.deliver e = .ok (t, ev)) :
    ∃ c rest, s.mailbox e = c :: rest ∧ Receiving (s.setMailbox e rest) e c ev t ∧
      Outcome s e .deliver t := by
  obtain ⟨c, rest, at_head⟩ := List.exists_cons_of_ne_nil waiting
  obtain ⟨ev', t', ends, receiving⟩ := sound.deliver at_head
  obtain ⟨rfl, rfl⟩ : t' = t ∧ ev' = ev := by simpa [ends] using done
  exact ⟨c, rest, at_head, receiving, .deliver at_head receiving⟩

end

theorem Outcome.sound (outcome : Outcome s e a t) (sound : s.Sound) (can : s.CanAct (e, a)) :
    t.Sound := by
  cases outcome with
  | peeked readable here peeked => exact sound.reads here (.peeked peeked)
  | checked how | read how | hiccup how | terminate how => exact how.sound sound can
  | writable => exact sound
  | full | setNodelay | setHwms | setHwmsBoost | setDisconnectMsg =>
    exact sound.setPipe rfl
  | write how | rollback how | flush how | sendDisconnectMsg how => exact how.sound sound
  | sendHwmsToPeer silent | sendStatsToPeer silent => exact sound.post silent rfl
  | deliver at_head receiving => exact receiving.sound at_head sound

theorem Outcome.pipe_peer (outcome : Outcome s e a t) : t.pipe e.peer = s.pipe e.peer := by
  cases outcome with
  | checked how | read how | write how | rollback how | flush how | hiccup how | terminate how
  | sendDisconnectMsg how => cases how <;> simp
  | deliver at_head receiving => cases receiving <;> simp
  | _ => simp

theorem attached_sound (hwms : End → Int) (conflate : End → Bool) :
    (attached hwms conflate).Sound where
  inv := by
    constructor
    · intro e
      rfl
    · intro e
      refine ⟨by simp [handshake, attached, pipepair, Pipe.new, Phase.said, Phase.acks], ?_, ?_⟩
      · intro k same
        cases same
        refine ⟨Nat.zero_le _, rfl, fun j => ?_⟩
        by_cases first : j = 0 <;> simp [handshake, attached, pipepair, Pipe.new]
      · simp [handshake, attached, pipepair, Pipe.new]
  sink _ := rfl
  tidy e k q found := by
    obtain rfl := new_of_attached found
    exact Upipe.new_tidy _

end Pair

end Zmq
