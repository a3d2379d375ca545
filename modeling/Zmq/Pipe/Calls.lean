import Zmq.Pipe.Basic

/-! # What a call leaves alone

For any pair, sound or not: a call at one end fails in a pipe or ends without touching the
pipe at the other end, and it stops or starts the outbound flow of its own pipe only where
it says so. Owners of a pipe can then be looked at one end at a time.
-/

namespace Zmq

open Lib

def Fault.ofPipe : Fault → Bool
  | .assertion site =>
    match site with
    | .checkRead | .probe | .rollback | .processDelimiter | .processHiccup
    | .processPipeTerm | .processPipeTermAck => true
    | _ => false
  | .nullPointer | .useAfterFree | .deadDestination | .outOfBounds | .attachedTwice => true

/-- The call fails in a pipe, or what it returns satisfies `post`. -/
def Meets {α : Type} (post : α → Prop) : Except Fault α → Prop
  | .ok a => post a
  | .error e => e.ofPipe = true

namespace Meets

variable {α β : Type} {post : α → Prop} {post' : β → Prop} {x y : Except Fault α}

theorem mono {post' : α → Prop} (first : Meets post x) (weaker : ∀ a, post a → post' a) :
    Meets post' x := by
  cases x with
  | error e => exact first
  | ok a => exact weaker a first

theorem bind {k : α → Except Fault β} (first : Meets post x)
    (next : ∀ a, post a → Meets post' (k a)) : Meets post' (x >>= k) := by
  cases x with
  | error e => exact first
  | ok a => exact next a first

theorem map {f : α → β} (first : Meets post x) (weaker : ∀ a, post a → post' (f a)) :
    Meets post' (x.map f) := by
  cases x with
  | error e => exact first
  | ok a => exact weaker a first

theorem ite {c : Prop} [Decidable c] (yes : c → Meets post x) (no : ¬ c → Meets post y) :
    Meets post (if c then x else y) := by
  split
  · rename_i holds
    exact yes holds
  · rename_i fails
    exact no fails

theorem ok {a : α} (first : Meets post x) (ends : x = .ok a) : post a := by
  simpa [ends, Meets] using first

end Meets

namespace Pipe

structure Steady (p q : Pipe) : Prop where
  outActive : q.outActive = p.outActive
  checkHwm : q.checkHwm = p.checkHwm

@[simp] theorem countRead_checkHwm (p : Pipe) (m : Msg) :
    (p.countRead m).checkHwm = p.checkHwm := by
  simp [checkHwm]

theorem countWritten_checkHwm (p : Pipe) {m : Msg} (routing : m.isRoutingId = true) :
    (p.countWritten m).checkHwm = p.checkHwm := by
  simp [countWritten, routing]

end Pipe

namespace Pair

/-- A call at `e` that leaves the other pipe and its own outbound flow alone. -/
structure Aside (e : End) (s t : Pair) : Prop where
  peer : t.pipe e.peer = s.pipe e.peer
  active : (t.pipe e).state = .active → (s.pipe e).state = .active
  steady : (t.pipe e).state = .active → (s.pipe e).Steady (t.pipe e)

variable {s t : Pair} {e : End}

theorem Aside.of_pipe (same : t.pipe = s.pipe) : s.Aside e t := by
  constructor
  · rw [same]
  · rw [same]
    exact id
  · rw [same]
    exact fun _ => ⟨rfl, rfl⟩

theorem Aside.of_closed (peer : t.pipe e.peer = s.pipe e.peer)
    (closed : (t.pipe e).state ≠ .active) : s.Aside e t where
  peer := peer
  active active := absurd active closed
  steady active := absurd active closed

theorem Aside.of_setPipe {p : Pipe} (same : t.pipe = (s.setPipe e p).pipe)
    (state : p.state = (s.pipe e).state) (steady : (s.pipe e).Steady p) : s.Aside e t := by
  constructor
  · simp [same]
  · simp [same, state]
  · simpa [same] using fun _ => steady

variable (s e)

theorem send_meets (command : Command) : Meets (fun t => t.pipe = s.pipe) (s.send e command) :=
  .ite (fun _ => rfl) fun _ => rfl

theorem deref_meets (k : Nat) : Meets (fun _ => True) (s.deref e k) := by
  unfold deref
  cases s.queue e k with
  | none => rfl
  | some q => trivial

theorem notify_meets (event : Event) : Meets (fun r => r = (s, some event)) (s.notify e event) :=
  .ite (fun _ => rfl) fun _ => rfl

theorem rollback_meets : Meets (fun t => t.pipe = s.pipe) (s.rollback e) := by
  unfold rollback
  cases (s.pipe e).outPipe with
  | none => rfl
  | some k =>
    apply (s.deref_meets _ _).bind
    intro q _
    cases q.rollback q.unfinished with
    | none | some => rfl

theorem flush_meets : Meets (fun t => t.pipe = s.pipe) (s.flush e) := by
  refine .ite (fun _ => rfl) fun _ => ?_
  cases (s.pipe e).outPipe with
  | none => rfl
  | some k =>
    apply (s.deref_meets _ _).bind
    intro q _
    exact .ite (fun _ => rfl) fun _ => (send_meets _ e _).mono fun t same => same

theorem sendPipeTermAck_meets (state : PipeState) :
    Meets (fun t => t.pipe e.peer = s.pipe e.peer ∧ (t.pipe e).state = state)
      (s.sendPipeTermAck e state) := by
  apply (send_meets _ e _).mono
  intro t same
  simp [same]

theorem processDelimiter_meets :
    Meets (fun t => t.pipe e.peer = s.pipe e.peer ∧ (t.pipe e).state ≠ .active)
      (s.processDelimiter e) := by
  unfold processDelimiter
  cases (s.pipe e).state with
  | active => simp [Meets]
  | waitingForDelimiter =>
    apply (s.rollback_meets e).bind
    intro t same
    apply (t.sendPipeTermAck_meets e _).mono
    rintro u ⟨peer, state⟩
    exact ⟨by rw [peer, same], by simp [state]⟩
  | _ => rfl

theorem checkRead_meets : Meets (fun r => s.Aside e r.2) (s.checkRead e) := by
  refine .ite (fun _ => ?_) fun _ => .of_pipe rfl
  apply (s.deref_meets _ _).bind
  intro q _
  refine .ite (fun _ => ?_) fun _ => .of_setPipe rfl rfl ⟨rfl, rfl⟩
  cases q.checkRead.2.probe Msg.isDelimiter with
  | none => rfl
  | some last =>
    cases last with
    | false => exact .of_pipe rfl
    | true =>
      cases q.checkRead.2.read with
      | mk r q' =>
        cases r with
        | none => rfl
        | some m =>
          apply (processDelimiter_meets _ e).bind
          rintro t ⟨peer, closed⟩
          exact .of_closed peer closed

theorem acceptRead_meets (m : Msg) : Meets (s.Aside e) (s.acceptRead e m) := by
  refine .ite (fun _ => (send_meets _ e _).mono fun t same => ?_) fun _ => ?_
  · exact .of_setPipe same (by simp) ⟨by simp, by simp⟩
  · exact .of_setPipe rfl (by simp) ⟨by simp, by simp⟩

theorem read_meets : Meets (fun r => s.Aside e r.2) (s.read e) := by
  refine .ite (fun _ => ?_) fun _ => .of_pipe rfl
  apply (s.deref_meets _ _).bind
  intro q _
  cases q.readData q.pending with
  | mk r q' =>
    cases r with
    | none => exact .of_setPipe rfl rfl ⟨rfl, rfl⟩
    | some m =>
      refine .ite (fun _ => ?_) fun _ => ?_
      · apply (processDelimiter_meets _ e).bind
        rintro t ⟨peer, closed⟩
        exact .of_closed peer closed
      · apply (acceptRead_meets _ e m).bind
        intro t aside
        exact { aside with }

/-- What a write does to the outbound flow: it goes through if and only if `check_write`
    agrees, and a refusal of an active pipe stops the flow. -/
structure Wrote (m : Msg) (written : Bool) (t : Pair) : Prop where
  peer : t.pipe e.peer = s.pipe e.peer
  state : (t.pipe e).state = (s.pipe e).state
  accepted : written = true ↔ (s.pipe e).state = .active ∧ (s.pipe e).outActive = true ∧
    (s.pipe e).checkHwm = true
  outActive : (t.pipe e).outActive = true ↔
    (s.pipe e).outActive = true ∧ ((s.pipe e).state = .active → written = true)
  checkHwm : m.isRoutingId = true → (t.pipe e).checkHwm = (s.pipe e).checkHwm

theorem checkWrite_fst : (s.checkWrite e).1 = true ↔ (s.pipe e).state = .active ∧
    (s.pipe e).outActive = true ∧ (s.pipe e).checkHwm = true := by
  unfold checkWrite
  cases (s.pipe e).outActive <;> cases (s.pipe e).checkHwm <;> cases (s.pipe e).state <;> simp

theorem checkWrite_snd_pipe_peer : (s.checkWrite e).2.pipe e.peer = s.pipe e.peer := by
  unfold checkWrite
  split
  · rfl
  · split <;> simp

theorem write_meets (m : Msg) (tryLock : Bool) :
    Meets (fun r => s.Wrote e m r.1 r.2) (s.write e m tryLock) := by
  refine .ite (fun accepted => ?_) fun refused => ?_
  · obtain ⟨state, outActive, checkHwm⟩ := (s.checkWrite_fst e).mp accepted
    cases (s.pipe e).outPipe with
    | none => rfl
    | some k =>
      apply (s.deref_meets _ _).bind
      intro q _
      constructor
      case peer => simp
      case state => simp
      case accepted => simp [state, outActive, checkHwm]
      case outActive => simp [outActive]
      case checkHwm =>
        intro routing
        simp [Pipe.countWritten_checkHwm _ routing]
  · constructor
    case peer => exact s.checkWrite_snd_pipe_peer e
    case state =>
      unfold checkWrite
      split
      · rfl
      · split <;> simp
    case accepted => simpa [checkWrite_fst] using refused
    case outActive =>
      unfold checkWrite at refused ⊢
      cases outActive : (s.pipe e).outActive <;> cases checkHwm : (s.pipe e).checkHwm <;>
        cases state : (s.pipe e).state <;> simp_all
    case checkHwm =>
      intro _
      unfold checkWrite
      split
      · rfl
      · split
        · simp [Pipe.checkHwm]
        · rfl

theorem writeDelimiter_meets (tryLock : Bool) :
    Meets (fun t => t.pipe e.peer = s.pipe e.peer ∧ (t.pipe e).state = (s.pipe e).state)
      (s.writeDelimiter e tryLock) := by
  unfold writeDelimiter
  simp only
  split
  · simp [Meets]
  · apply (rollback_meets _ e).bind
    intro t same
    apply (t.deref_meets _ _).bind
    intro q _
    apply (flush_meets _ e).mono
    intro u same'
    simp [same', same]

theorem terminate_meets (delay tryLock : Bool) :
    Meets (fun t => t.pipe e.peer = s.pipe e.peer ∧ (t.pipe e).state ≠ .active)
      (s.terminate e delay tryLock) := by
  unfold terminate
  simp only [setPipe_self]
  cases (s.pipe e).state with
  | termReqSent1 | termReqSent2 | termAckSent => simp [Meets]
  | active | delimiterReceived =>
    apply (send_meets _ e _).bind
    intro t same
    apply (writeDelimiter_meets _ e _).mono
    rintro u ⟨peer, state'⟩
    simp [peer, state', same]
  | waitingForDelimiter =>
    refine .ite (fun _ => ?_) fun _ => ?_
    · apply (writeDelimiter_meets _ e _).mono
      rintro u ⟨peer, state'⟩
      simp [peer, state']
    · apply (rollback_meets _ e).bind
      intro t same
      apply (t.sendPipeTermAck_meets e _).bind
      rintro u ⟨peer, acked⟩
      apply (u.writeDelimiter_meets e _).mono
      rintro v ⟨peer', state'⟩
      simp [peer', peer, same, state', acked]

theorem hiccup_meets : Meets (s.Aside e) (s.hiccup e) := by
  refine .ite (fun _ => (send_meets _ e _).mono fun t same => ?_) fun _ => .of_pipe rfl
  exact .of_setPipe same rfl ⟨rfl, rfl⟩

theorem sendDisconnectMsg_meets (tryLock : Bool) :
    Meets (s.Aside e) (s.sendDisconnectMsg e tryLock) := by
  refine .ite (fun _ => ?_) fun _ => .of_pipe rfl
  apply (s.rollback_meets e).bind
  intro t same
  cases (t.pipe e).outPipe with
  | none => rfl
  | some k =>
    apply (t.deref_meets _ _).bind
    intro q _
    apply (flush_meets _ e).bind
    intro u same'
    have pipes : u.pipe = s.pipe := by rw [same', setQueue_pipe, same]
    refine .of_setPipe (p := { s.pipe e with disconnectMsg := .init }) ?_ rfl ⟨rfl, rfl⟩
    rw [setPipe, setPipe, pipes]

/-! ## Commands -/

/-- What a command does to the outbound flow of the pipe that gets it: it does not stop it,
    and the sink is told when it starts. -/
structure Heard (t : Pair) (event : Option Event) : Prop where
  peer : t.pipe e.peer = s.pipe e.peer
  active : (t.pipe e).state = .active → (s.pipe e).state = .active
  started : (s.pipe e).outActive = true → (t.pipe e).outActive = true
  woken : event = some .writeActivated → (s.pipe e).outActive = false ∧
    (s.pipe e).state = .active ∧ (t.pipe e).outActive = true
  steady : event = some .readActivated → (s.pipe e).Steady (t.pipe e)

theorem processPipeTerm_meets :
    Meets (fun t => t.pipe e.peer = s.pipe e.peer ∧ (t.pipe e).state ≠ .active ∧
      (t.pipe e).outActive = (s.pipe e).outActive) (s.processPipeTerm e) := by
  have ack (state : PipeState) (closed : state ≠ .active) :
      Meets (fun t => t.pipe e.peer = s.pipe e.peer ∧ (t.pipe e).state ≠ .active ∧
        (t.pipe e).outActive = (s.pipe e).outActive) (s.sendPipeTermAck e state) := by
    apply (send_meets _ e _).mono
    intro t same
    simp [same, closed]
  unfold processPipeTerm
  cases (s.pipe e).state with
  | active => exact .ite (fun _ => by simp [Meets]) fun _ => ack _ nofun
  | delimiterReceived | termReqSent1 => exact ack _ nofun
  | _ => rfl

theorem deallocate_meets :
    Meets (fun t => t.pipe e.peer = s.pipe e.peer ∧ (t.pipe e).state = (s.pipe e).state ∧
      (t.pipe e).outActive = (s.pipe e).outActive) (s.deallocate e) := by
  apply (s.deref_meets _ _).bind
  simp [Meets]

theorem processPipeTermAck_meets : Meets (fun r => s.Heard e r.1 r.2) (s.processPipeTermAck e) := by
  have leaves (t : Pair) (peer : t.pipe e.peer = s.pipe e.peer)
      (closed : (t.pipe e).state ≠ .active)
      (outActive : (t.pipe e).outActive = (s.pipe e).outActive) :
      Meets (fun r => s.Heard e r.1 r.2) (do
        let s ← t.deallocate e
        .ok (s, some Event.pipeTerminated)) := by
    apply (t.deallocate_meets e).bind
    rintro u ⟨peer', state, same⟩
    constructor
    case peer => rw [peer', peer]
    case active => simp [state, closed]
    case started => simp [same, outActive]
    case woken => nofun
    case steady => nofun
  refine .ite (fun _ => ?_) fun _ => rfl
  cases state : (s.pipe e).state with
  | termReqSent1 =>
    apply (send_meets _ e _).bind
    intro t same
    apply leaves <;> simp [same]
  | termAckSent | termReqSent2 => exact leaves s rfl (by simp [state]) rfl
  | _ => rfl

theorem processCommand_meets (command : Command) :
    Meets (fun r => s.Heard e r.1 r.2) (s.processCommand e command) := by
  have idle (t : Pair) (event : Option Event) (same : t.pipe e.peer = s.pipe e.peer)
      (state : (t.pipe e).state = (s.pipe e).state)
      (outActive : (t.pipe e).outActive = (s.pipe e).outActive)
      (other : event ≠ some .writeActivated ∧ event ≠ some .readActivated) : s.Heard e t event :=
    ⟨same, by simp [state], by simp [outActive], fun told => absurd told other.1,
      fun told => absurd told other.2⟩
  cases command with
  | activateRead =>
    refine .ite (fun _ => ?_) fun _ => idle s none rfl rfl rfl (by simp)
    apply (notify_meets _ e _).mono
    rintro r rfl
    exact ⟨by simp, by simp, by simp, nofun, fun _ => ⟨by simp, by simp [Pipe.checkHwm]⟩⟩
  | activateWrite msgsRead =>
    refine .ite (fun woken => ?_) fun _ => idle _ none (by simp) (by simp) (by simp) (by simp)
    obtain ⟨asleep, active⟩ : (s.pipe e).outActive = false ∧ (s.pipe e).state = .active := by
      simpa using woken
    apply (notify_meets _ e _).mono
    rintro r rfl
    exact ⟨by simp, by simp, by simp, fun _ => ⟨asleep, active, by simp⟩, nofun⟩
  | hiccup k =>
    simp only [processCommand, processHiccup]
    cases (s.pipe e).outPipe with
    | none => rfl
    | some old =>
      apply (s.deref_meets _ _).bind
      intro q _
      refine .ite (fun _ => ?_) fun _ => ?_
      · apply (notify_meets _ e _).mono
        rintro r rfl
        exact ⟨by simp, by simp, by simp, nofun, nofun⟩
      · exact ⟨by simp, by simp, by simp, nofun, nofun⟩
  | pipePeerStats count => exact idle s _ rfl rfl rfl (by simp)
  | pipeTerm =>
    apply (s.processPipeTerm_meets e).bind
    rintro t ⟨peer, closed, outActive⟩
    exact ⟨peer, fun active => absurd active closed, by simp [outActive], nofun, nofun⟩
  | pipeTermAck => exact s.processPipeTermAck_meets e
  | pipeHwm inhwm outhwm =>
    exact idle _ none (by simp) (by simp [Pipe.setHwms]) (by simp [Pipe.setHwms]) (by simp)

theorem deliver_meets : Meets (fun r => s.Heard e r.1 r.2) (s.deliver e) := by
  unfold deliver
  cases s.mailbox e with
  | nil => exact ⟨rfl, id, id, nofun, nofun⟩
  | cons command rest =>
    refine .ite (fun _ => rfl) fun _ => ?_
    apply (processCommand_meets _ e command).mono
    intro r heard
    exact { heard with }

theorem step_meets (a : Action) :
    Meets (fun t => t.pipe e.peer = s.pipe e.peer) (s.step (e, a)) := by
  cases a with
  | checkRead => exact (s.checkRead_meets e).map fun r aside => aside.peer
  | read => exact (s.read_meets e).map fun r aside => aside.peer
  | checkWrite => exact s.checkWrite_snd_pipe_peer e
  | write m tryLock => exact (s.write_meets e m tryLock).map fun r wrote => wrote.peer
  | rollback => exact (s.rollback_meets e).mono fun t same => by rw [same]
  | flush => exact (s.flush_meets e).mono fun t same => by rw [same]
  | hiccup => exact (s.hiccup_meets e).mono fun t aside => aside.peer
  | terminate delay tryLock => exact (s.terminate_meets e delay tryLock).mono fun t ends => ends.1
  | sendHwmsToPeer inhwm outhwm => exact (s.send_meets e _).mono fun t same => by rw [same]
  | sendStatsToPeer => exact (s.send_meets e _).mono fun t same => by rw [same]
  | sendDisconnectMsg tryLock =>
    exact (s.sendDisconnectMsg_meets e tryLock).mono fun t aside => aside.peer
  | deliver => exact (s.deliver_meets e).map fun r heard => heard.peer
  | _ => simp [step, Meets]

end Pair

end Zmq
