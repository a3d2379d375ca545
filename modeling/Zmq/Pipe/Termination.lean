import Zmq.Pipe.Outcome

/-! # Termination of a pipe pair

Over every run: no call and no command fails, each endpoint is asked and answered
at most once, and a queue is freed only after its writer has let go of it.
-/

namespace Zmq

open Lib

/-- The calls that neither tune a pipe nor send on behalf of the socket. -/
def Action.plain : Action → Bool
  | .setHwms .. | .setHwmsBoost .. | .sendHwmsToPeer .. | .sendStatsToPeer
  | .sendDisconnectMsg _ | .setDisconnectMsg _ => false
  | .checkRead | .read | .checkWrite | .write .. | .rollback | .flush | .hiccup | .setNodelay
  | .terminate .. | .deliver => true

theorem Action.tells_of_plain {a : Action} (plain : a.plain = true) : a.tells = false := by
  cases a <;> first | rfl | cases plain

namespace Phase

theorem count_once {p q : Phase} {word : List Signal} (synced : absorb next p word = some q) :
    word.count .term ≤ (if p.asks then 0 else 1) ∧ word.count .ack ≤ if p.acks then 0 else 1 := by
  induction word generalizing p with
  | nil => simp
  | cons x rest ih =>
    obtain ⟨r, moved, onward⟩ := Option.bind_eq_some_iff.mp synced
    have later := ih onward
    cases p <;> cases x <;> simp only [next, Option.some.injEq, reduceCtorEq] at moved <;>
      subst moved <;> simp_all [asks, acks]

end Phase

namespace Pair

/-- A plain action of an environment that keeps to the rules. -/
def Plain (s : Pair) (a : End × Action) : Prop := s.CanAct a ∧ a.2.plain = true
  deriving Decidable

def delivered (e : End) : Pair × End × Action → Option Command
  | (s, x, .deliver) => if x = e then (s.mailbox e).head? else none
  | _ => none

def received (past : List (Pair × End × Action)) (e : End) : List Command :=
  past.filterMap (delivered e)

def heard (s : Pair) (e : End) : Phase := Phase.heard (s.pipe e).state (s.pipe e).deleted

variable {s t : Pair} {e : End} {a : Action} {hwms : End → Int} {c : Command}

theorem Outcome.heard_eq (outcome : Outcome s e a t) (call : a ≠ .deliver) :
    t.heard e = s.heard e := by
  cases outcome with
  | deliver => exact absurd rfl call
  | checked reading | read reading =>
    cases reading <;> simp_all [heard, Phase.heard]
  | write how | rollback how | flush how | hiccup how | sendDisconnectMsg how =>
    cases how <;> simp [heard]
  | terminate terminating =>
    cases terminating with
    | asked lock state => rcases state with state | state <;> simp [heard, Phase.heard, state]
    | _ => simp_all [heard, Phase.heard]
  | _ => simp [heard, Pipe.setHwms, Pipe.setHwmsBoost]

theorem Receiving.heard_eq {rest : List Command} {ev : Option Event}
    (at_head : s.mailbox e = c :: rest) (receiving : Receiving (s.setMailbox e rest) e c ev t)
    (sound : s.Sound) : Phase.next (s.heard e) c.signal = some (t.heard e) := by
  have synced := sound.inv.synced e
  have box : s.handshake.box e = c.signal :: rest.map Command.signal := by
    simp [handshake, at_head]
  rw [box, absorb_cons] at synced
  obtain ⟨p, moved, -⟩ := Option.bind_eq_some_iff.mp synced
  change Phase.next (s.heard e) c.signal = some p at moved
  have stays : (s.pipe e).deleted = false := by
    by_contra left
    have := sound.inv.box_of_gone (e := e) (by simpa [handshake] using left)
    simp [box] at this
  rw [moved]
  cases receiving with
  | readWoken | readIgnored | writeWoken | writeNoted | published | limited =>
    obtain rfl := Phase.eq_of_talk moved
    simp [heard, Pipe.setHwms]
  | replaced =>
    have := Phase.opened_of_hiccup moved
    simp_all [heard, Command.signal, Phase.next]
  | waits state | crosses state | answersAndLeaves state =>
    simp_all [heard, Phase.heard, Command.signal, Phase.next]
  | answers how | leaves how =>
    rcases how with how | how <;>
      simp_all [heard, Phase.heard, Command.signal, Phase.next]

theorem Sound.plain_step (sound : s.Sound) (plain : s.Plain (e, a)) :
    ∃ t, s.step (e, a) = .ok t ∧ Outcome s e a t ∧ t.Sound := by
  have quiet : a.tells = true → s.Silent e := by
    intro tells
    rw [Action.tells_of_plain plain.2] at tells
    cases tells
  rcases sound.step plain.1 quiet with ⟨t, ends, outcome⟩ | ⟨-, lock, rfl⟩
  · exact ⟨t, ends, outcome, outcome.sound sound plain.1⟩
  · cases plain.2

/-- What holds along every plain run: the pair is sound, and what each endpoint
    has received accounts for what it has heard. -/
structure Accounted (past : List (Pair × End × Action)) (s : Pair) : Prop where
  sound : s.Sound
  heard : ∀ e, absorb Phase.next .opened ((received past e).map Command.signal) = some (s.heard e)

theorem received_append (past : List (Pair × End × Action)) (last : Pair × End × Action) (e : End) :
    received (past ++ [last]) e = received past e ++ (delivered e last).toList := by
  simp only [received, List.filterMap_append, List.filterMap_cons]
  cases delivered e last <;> rfl

theorem delivered_call (s : Pair) (x e : End) (call : a ≠ .deliver) :
    delivered x (s, e, a) = none := by
  cases a <;> first | rfl | exact absurd rfl call

theorem Accounted.next {past : List (Pair × End × Action)} (accounted : Accounted past s)
    (plain : s.Plain (e, a)) (taken : s.step (e, a) = .ok t) :
    Accounted (past ++ [(s, e, a)]) t := by
  obtain ⟨t', ends, outcome, sound⟩ := accounted.sound.plain_step plain
  obtain rfl : t' = t := by simpa [ends] using taken
  refine ⟨sound, fun x => ?_⟩
  rw [received_append, List.map_append, absorb_append, accounted.heard]
  have others : t'.heard e.peer = s.heard e.peer := by simp [Pair.heard, outcome.pipe_peer]
  by_cases call : a = .deliver
  · subst call
    cases outcome with
    | deliver at_head receiving =>
      rcases x.eq_or_peer e with rfl | rfl
      · have moved := receiving.heard_eq at_head accounted.sound
        simp [delivered, at_head, moved]
      · simp [delivered, others]
  · rw [delivered_call s x e call]
    rcases x.eq_or_peer e with rfl | rfl
    · simp [outcome.heard_eq call]
    · simp [others]

theorem Accounted.of_trace {conflate : End → Bool} {past : List (Pair × End × Action)}
    (run : Trace Pair.step Plain (attached hwms conflate) past s) : Accounted past s := by
  apply run.invariant (P := Accounted)
  · exact ⟨attached_sound hwms conflate, fun _ => rfl⟩
  · rintro past s ⟨e, a⟩ t accounted plain taken
    exact accounted.next plain taken

theorem count_signal (word : List Command) (only : ∀ d : Command, d.signal = c.signal → d = c) :
    (word.map Command.signal).count c.signal = word.count c := by
  induction word with
  | nil => rfl
  | cons d rest ih =>
    rw [List.map_cons, List.count_cons, List.count_cons, ih]
    by_cases same : d = c
    · simp [same]
    · have other : d.signal ≠ c.signal := fun signals => same (only d signals)
      simp [same, other]

theorem Outcome.deallocates (outcome : Outcome s e a t) (sound : s.Sound)
    (stays : (s.pipe e).deleted = false) (left : (t.pipe e).deleted = true) :
    (∃ rest, s.mailbox e = .pipeTermAck :: rest) ∧ (s.pipe e.peer).outPipe = none := by
  have at_ack : ∃ rest, s.mailbox e = .pipeTermAck :: rest := by
    cases outcome with
    | checked how | read how | write how | rollback how | flush how | hiccup how | terminate how
    | sendDisconnectMsg how => cases how <;> simp_all
    | peeked | writable | full | setNodelay | setHwms | setHwmsBoost | sendHwmsToPeer
    | sendStatsToPeer | setDisconnectMsg =>
      simp_all [Pipe.setHwms, Pipe.setHwmsBoost]
    | deliver at_head receiving =>
      cases receiving with
      | _ => simp_all [Pipe.setHwms]
  refine ⟨at_ack, ?_⟩
  obtain ⟨rest, at_head⟩ := at_ack
  have signals : s.handshake.box e = .ack :: rest.map Command.signal := by
    simp [handshake, at_head, Command.signal]
  have := sound.inv.synced e
  rw [signals, absorb_cons] at this
  obtain ⟨p, moved, onward⟩ := Option.bind_eq_some_iff.mp this
  refine (sound.inv.chain e).dropped.mpr ?_
  exact absorb_closed (P := fun p : Phase => p.acks = true) (fun _ _ _ => Phase.acks_next)
    (Phase.acks_of_ack moved) onward

/-- Along every run of calls and deliveries over a fresh pair: whatever comes next
    succeeds, so no assertion fails and no dangling pointer is followed; each
    endpoint has received at most one request and one answer; and an endpoint
    that is freed was answered by a peer that writes to its queue no more. -/
theorem termination_is_safe (hwms : End → Int) (conflate : End → Bool)
    {past : List (Pair × End × Action)} {s : Pair}
    (run : Trace Pair.step Plain (attached hwms conflate) past s) :
    (∀ a, s.Plain a → ∃ t, s.step a = .ok t) ∧
      (∀ e, (received past e).count .pipeTerm ≤ 1 ∧ (received past e).count .pipeTermAck ≤ 1) ∧
      ∀ e a t, s.Plain (e, a) → s.step (e, a) = .ok t →
        (s.pipe e).deleted = false → (t.pipe e).deleted = true →
        (∃ rest, s.mailbox e = .pipeTermAck :: rest) ∧ (s.pipe e.peer).outPipe = none := by
  have accounted := Accounted.of_trace run
  refine ⟨?_, ?_, ?_⟩
  · rintro ⟨e, a⟩ plain
    obtain ⟨t, ends, -⟩ := accounted.sound.plain_step plain
    exact ⟨t, ends⟩
  · intro e
    obtain ⟨terms, answers⟩ := Phase.count_once (accounted.heard e)
    constructor
    · rw [← count_signal (c := .pipeTerm) _ (by intro d; cases d <;> simp [Command.signal])]
      exact terms
    · rw [← count_signal (c := .pipeTermAck) _ (by intro d; cases d <;> simp [Command.signal])]
      exact answers
  · intro e a t plain taken stays left
    obtain ⟨t', ends, outcome, -⟩ := accounted.sound.plain_step plain
    obtain rfl : t' = t := by simpa [ends] using taken
    exact outcome.deallocates accounted.sound stays left

theorem termination_is_safe_crossing :
    ∃ past s, Trace Pair.step Plain (attached (fun _ => 1) (fun _ => false)) past s ∧
      (s.pipe .first).deleted = true ∧ (s.pipe .second).deleted = true ∧
      ∀ e, (received past e).count .pipeTerm ≤ 1 ∧ (received past e).count .pipeTermAck ≤ 1 := by
  obtain ⟨s, ⟨past, run⟩, gone, gone'⟩ := exists_reaches Pair.step Plain
    (attached (fun _ => 1) (fun _ => false))
    [(.first, .write {} true), (.first, .flush), (.first, .terminate true true),
      (.second, .terminate false true), (.second, .deliver), (.first, .deliver),
      (.first, .deliver), (.second, .deliver)]
    (fun s => (s.pipe .first).deleted = true ∧ (s.pipe .second).deleted = true) (by decide)
  exact ⟨past, s, run, gone, gone', (termination_is_safe _ _ run).2.1⟩

/-! ## Commands for a pipe that is gone -/

/-- Statistics and watermarks are sent only before the pipe has confirmed its
    termination. Nothing else is asked of the environment. -/
def Considerate (s : Pair) (a : End × Action) : Prop :=
  s.CanAct a ∧ (a.2.tells = true →
    (s.pipe a.1).state ≠ .termAckSent ∧ (s.pipe a.1).state ≠ .termReqSent2)
  deriving Decidable

theorem Considerate.silent (fair : s.Considerate (e, a)) (tells : a.tells = true) : s.Silent e := by
  apply silent_of_state _ (fair.2 tells)
  have can := fair.1
  cases a <;> first | exact can | cases tells

theorem Considerate.sound {conflate : End → Bool}
    (reached : Reaches Pair.step Considerate (attached hwms conflate) s) : s.Sound := by
  apply reached.invariant (attached_sound hwms conflate)
  rintro s ⟨e, a⟩ t sound fair taken
  exact (sound.outcome fair.1 fair.silent taken).sound sound fair.1

/-- In every run that keeps to it no command goes to a pipe that is gone. -/
theorem considerate_destination_lives (hwms : End → Int) (conflate : End → Bool) {s : Pair}
    (reached : Reaches Pair.step Considerate (attached hwms conflate) s) {a : End × Action}
    (fair : s.Considerate a) : s.step a ≠ .error .deadDestination := by
  rcases (Considerate.sound reached).step fair.1 fair.silent with ⟨t, ends, -⟩ | ⟨null, -⟩
  · simp [ends]
  · simp [null]

private def farewell : List (End × Action) :=
  [(.first, .terminate true true), (.second, .deliver), (.second, .read), (.first, .deliver)]

theorem considerate_destination_lives_before_answer :
    ∃ s, Reaches Pair.step Considerate (attached (fun _ => 1) (fun _ => false)) s ∧
      (s.pipe .second).state = .waitingForDelimiter ∧
      s.step (.second, .sendHwmsToPeer 5 5) ≠ .error .deadDestination := by
  obtain ⟨s, reached, state, fair⟩ := exists_reaches Pair.step Considerate
    (attached (fun _ => 1) (fun _ => false)) (farewell.take 2)
    (fun s => (s.pipe .second).state = .waitingForDelimiter ∧
      s.Considerate (.second, .sendHwmsToPeer 5 5)) (by decide)
  exact ⟨s, reached, state, considerate_destination_lives _ _ reached fair⟩

/-- The answered end is still in its socket's list; a change of its watermarks is
    then sent to a pipe that is gone. -/
theorem hwms_sent_to_dead_peer :
    ∃ s, Reaches Pair.step CanAct (attached (fun _ => 1) (fun _ => false)) s ∧
      s.CanAct (.second, .sendHwmsToPeer 5 5) ∧
      s.step (.second, .sendHwmsToPeer 5 5) = .error .deadDestination ∧
      s.step (.second, .sendStatsToPeer) = .error .deadDestination :=
  exists_reaches _ _ _ farewell _ (by decide)

/-! ## A disconnect message for a queue that is gone -/

/-- Where a pipe has confirmed its termination it has let go of its queue, and only there. -/
theorem Sound.outPipe_none (sound : s.Sound) (stays : (s.pipe e).deleted = false) :
    (s.pipe e).outPipe = none ↔
      (s.pipe e).state = .termAckSent ∨ (s.pipe e).state = .termReqSent2 := by
  constructor
  · intro dropped
    by_contra open_
    obtain ⟨k, q, here, -⟩ := sound.outPipe (silent_of_state stays (not_or.mp open_))
    rw [dropped] at here
    cases here
  · intro state
    cases here : (s.pipe e).outPipe with
    | none => rfl
    | some k =>
      have silent := sound.silent_of_outPipe here
      rcases state with state | state <;> simp [Silent, state, Phase.said, Phase.acks] at silent

/-- Every call and every command succeeds, but a disconnect message that is set and sent after
    the pipe has confirmed its termination: that goes through a null pointer. -/
theorem null_queue_iff (hwms : End → Int) (conflate : End → Bool) {s : Pair}
    (reached : Reaches Pair.step Considerate (attached hwms conflate) s) {e : End} {a : Action}
    (fair : s.Considerate (e, a)) :
    ((∃ t, s.step (e, a) = .ok t) ∨ s.step (e, a) = .error .nullPointer) ∧
      (s.step (e, a) = .error .nullPointer ↔ (∃ lock, a = .sendDisconnectMsg lock) ∧
        0 < (s.pipe e).disconnectMsg.size ∧
        ((s.pipe e).state = .termAckSent ∨ (s.pipe e).state = .termReqSent2)) := by
  have sound := Considerate.sound reached
  rcases sound.step fair.1 fair.silent with ⟨t, ends, outcome⟩ | ⟨null, lock, rfl⟩
  · refine ⟨.inl ⟨t, ends⟩, by simp [ends], ?_⟩
    rintro ⟨⟨lock, rfl⟩, size, state⟩
    have dropped := (sound.outPipe_none fair.1).mpr state
    simp [Pair.step, Pair.sendDisconnectMsg, size, Pair.rollback, dropped]
  · refine ⟨.inr null, fun _ => ⟨⟨lock, rfl⟩, ?_⟩, fun _ => null⟩
    rcases sound.sendDisconnectMsg (e := e) lock with ⟨-, size, dropped⟩ | ⟨t, ends, -⟩
    · exact ⟨size, (sound.outPipe_none fair.1).mp dropped⟩
    · simp [Pair.step, ends] at null

theorem null_queue_iff_waiting :
    ∃ s, Reaches Pair.step Considerate (attached (fun _ => 1) (fun _ => false)) s ∧
      0 < (s.pipe .second).disconnectMsg.size ∧
      s.step (.second, .sendDisconnectMsg true) ≠ .error .nullPointer := by
  obtain ⟨s, reached, fair, size, state⟩ := exists_reaches Pair.step Considerate
    (attached (fun _ => 1) (fun _ => false)) ((.second, .setDisconnectMsg [1]) :: farewell.take 2)
    (fun s => s.Considerate (.second, .sendDisconnectMsg true) ∧
      0 < (s.pipe .second).disconnectMsg.size ∧ (s.pipe .second).state = .waitingForDelimiter)
    (by decide)
  refine ⟨s, reached, size, fun null => ?_⟩
  simpa [state] using ((null_queue_iff _ _ reached fair).2.mp null).2.2

/-- The answered end is still in its socket's list when the socket is closed. -/
theorem disconnect_msg_without_queue :
    ∃ s, Reaches Pair.step Considerate (attached (fun _ => 1) (fun _ => false)) s ∧
      s.Considerate (.second, .sendDisconnectMsg true) ∧
      s.step (.second, .sendDisconnectMsg true) = .error .nullPointer :=
  exists_reaches _ _ _ ((.second, .setDisconnectMsg [1]) :: farewell.take 3) _ (by decide)

end Pair

end Zmq
