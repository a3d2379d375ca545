import Zmq.Lib.Run
import Zmq.Ypipe

/-! # The mailbox

`mailbox_t` with any number of senders and its one receiver. A sender holds the lock from the write
to the end of the flush and sends its signal after that; the receiver may come in between any two
of these steps. A command is kept with its sender.
-/

namespace Zmq

open Lib

/-- Where `recv` is: outside, waiting for the signal, or behind it. -/
inductive ReceiverAt where
  | idle
  | waiting
  | woken
  deriving Repr, DecidableEq

structure Mailbox (ι β : Type) where
  /-- `_cpipe`; the constructor leaves it in passive state. -/
  cpipe : Ypipe (ι × β) := (Ypipe.new).checkRead.2
  active : Bool := false
  /-- The sender that holds `_sync`. -/
  sync : Option ι := none
  /-- The senders that have been told to wake the receiver up. -/
  signalling : List ι := []
  /-- The signals in `_signaler`. -/
  signals : Nat := 0
  receiver : ReceiverAt := .idle
  sent : List (ι × β) := []
  received : List (ι × β) := []

inductive MailboxStep (ι β : Type) where
  | write (i : ι) (cmd : β)
  | flush (i : ι)
  | signal (i : ι)
  /-- `recv` up to the wait. -/
  | recv
  /-- The wait ends by the timeout or is interrupted. -/
  | giveUp
  /-- The wait ends by a signal, which is received. -/
  | wake
  /-- The end of `recv`. -/
  | take
  deriving Repr, DecidableEq

namespace Mailbox

variable {ι β : Type}

section Steps

variable [DecidableEq ι]

/-- One step of a sender or of the receiver. The error is the failed assertion of `recv`. -/
def step (s : Mailbox ι β) : MailboxStep ι β → Except Unit (Mailbox ι β)
  | .write i cmd =>
    .ok { s with cpipe := s.cpipe.write (i, cmd) false, sync := some i, sent := s.sent ++ [(i, cmd)] }
  | .flush i =>
    .ok { s with
      cpipe := s.cpipe.flush.2
      sync := none
      signalling := if s.cpipe.flush.1 then s.signalling else i :: s.signalling }
  | .signal i => .ok { s with signalling := s.signalling.erase i, signals := s.signals + 1 }
  | .recv =>
    if s.active then
      match s.cpipe.read with
      | (some cmd, cpipe) =>
        .ok { s with cpipe := cpipe, receiver := .idle, received := s.received ++ [cmd] }
      | (none, cpipe) => .ok { s with cpipe := cpipe, active := false, receiver := .waiting }
    else .ok { s with receiver := .waiting }
  | .giveUp => .ok { s with receiver := .idle }
  | .wake => .ok { s with signals := s.signals - 1, active := true, receiver := .woken }
  | .take =>
    match s.cpipe.read with
    | (some cmd, cpipe) =>
      .ok { s with cpipe := cpipe, receiver := .idle, received := s.received ++ [cmd] }
    | (none, _) => .error ()

def InTurn (s : Mailbox ι β) : MailboxStep ι β → Prop
  | .write i _ => s.sync = none ∧ i ∉ s.signalling
  | .flush i => s.sync = some i
  | .signal i => i ∈ s.signalling
  | .recv => s.receiver = .idle
  | .giveUp => s.receiver = .waiting
  | .wake => s.receiver = .waiting ∧ 0 < s.signals
  | .take => s.receiver = .woken

instance (s : Mailbox ι β) (a : MailboxStep ι β) : Decidable (s.InTurn a) := by
  cases a <;> dsimp only [InTurn] <;> infer_instance

end Steps

/-- The signals that are pending or about to be sent. -/
def inFlight (s : Mailbox ι β) : Nat := s.signals + s.signalling.length

/-- A receiver that is asleep has no signal, and one that is passive but not asleep has a command
    and a signal. -/
structure Inv (s : Mailbox ι β) : Prop where
  items : s.cpipe.items = s.sent
  finished : s.cpipe.f = s.sent.length
  unflushed : s.sync = none ↔ s.cpipe.w = s.cpipe.f
  received : s.received = s.sent.take s.cpipe.front
  asleep : s.cpipe.c = none → s.active = false ∧ s.inFlight = 0
  passive : s.cpipe.c ≠ none → s.active = false → s.cpipe.front < s.cpipe.w ∧ s.inFlight = 1
  active : s.active = true → s.inFlight = 0
  waiting : s.receiver = .waiting → s.active = false
  woken : s.receiver = .woken → s.active = true ∧ s.cpipe.front < s.cpipe.w

variable {s t : Mailbox ι β} {a : MailboxStep ι β}

theorem Inv.taken (inv : s.Inv) (active : s.active = true) {cmd : ι × β} {cpipe : Ypipe (ι × β)}
    (read : s.cpipe.read = (some cmd, cpipe)) :
    Inv { s with cpipe := cpipe, receiver := .idle, received := s.received ++ [cmd] } := by
  have more : s.cpipe.front < s.cpipe.w := by
    by_contra none_left
    have := (Ypipe.read_of_eq (y := s.cpipe) (by have := s.cpipe.front_le_w; omega)).1
    simp [read] at this
  obtain ⟨value, front, c⟩ := Ypipe.read_of_lt more
  obtain rfl : s.cpipe.read.2 = cpipe := by rw [read]
  obtain rfl : _ = cmd := Option.some.inj (value.symm.trans (congrArg Prod.fst read))
  refine ⟨by simpa using inv.items, by simpa using inv.finished, by simpa using inv.unflushed, ?_,
    c ▸ inv.asleep, by simp [active], inv.active, nofun, nofun⟩
  simp [front, inv.received, inv.items]

theorem Inv.oldest (inv : s.Inv) (more : s.cpipe.front < s.cpipe.w) :
    ∃ cmd, s.cpipe.read = (some cmd, s.cpipe.read.2) ∧ s.sent[s.received.length]? = some cmd := by
  have inside := Ypipe.lt_length more
  refine ⟨s.cpipe.items.get ⟨_, inside⟩, by rw [← (Ypipe.read_of_lt more).1], ?_⟩
  rw [inv.items] at inside
  have length : s.received.length = s.cpipe.front := by
    rw [inv.received, List.length_take]
    omega
  simp [length, inv.items, inside]

theorem Inv.step [DecidableEq ι] (inv : s.Inv) (turn : s.InTurn a) :
    ∃ t, s.step a = .ok t ∧ t.Inv := by
  have behind := s.cpipe.front_le_w
  have unflushed := s.cpipe.w_le_f
  have ⟨items, finished, locked, received, asleep, passive, active, waiting, woken⟩ := inv
  cases a with
  | write i cmd =>
    refine ⟨_, rfl, by simp [items], by simp [items], ?_, ?_, asleep, passive, active, waiting, woken⟩
    · simp only [Ypipe.write_w, Ypipe.write_f]
      grind
    · simpa [List.take_append_of_le_length (show s.cpipe.front ≤ s.sent.length by omega)]
  | flush i =>
    have holds : s.sync = some i := turn
    have wakes := s.cpipe.flush_false_iff
    have awake : s.cpipe.flush.2.c = some s.cpipe.f := by
      rw [Ypipe.flush_c, if_neg (by simp [← locked, holds])]
    refine ⟨_, rfl, by simpa, by simpa, by simp, by simpa, ?_, ?_, ?_, waiting, ?_⟩
    all_goals grind [inFlight, Ypipe.flush_w, Ypipe.flush_front]
  | signal i =>
    have told : i ∈ s.signalling := turn
    refine ⟨_, rfl, items, finished, locked, received, ?_, ?_, ?_, waiting, woken⟩
    all_goals grind [inFlight]
  | recv =>
    rw [Mailbox.step]
    split
    · rename_i on
      match read : s.cpipe.read with
      | (some cmd, cpipe) => exact ⟨_, rfl, inv.taken on read⟩
      | (none, cpipe) =>
        have none_left : s.cpipe.front = s.cpipe.w := by
          by_contra more
          have found := (Ypipe.read_of_lt (y := s.cpipe) (by omega)).1
          simp [read] at found
        obtain ⟨-, front, null⟩ := Ypipe.read_of_eq none_left
        obtain rfl : s.cpipe.read.2 = cpipe := by rw [read]
        exact ⟨_, rfl, by simpa, by simpa, by simpa, by simpa [front], fun _ => ⟨rfl, active on⟩,
          by simp [null], nofun, fun _ => rfl, nofun⟩
    · rename_i off
      exact ⟨_, rfl, items, finished, locked, received, asleep, passive, active,
        fun _ => Bool.eq_false_iff.mpr off, nofun⟩
  | giveUp =>
    exact ⟨_, rfl, items, finished, locked, received, asleep, passive, active, nofun, nofun⟩
  | wake =>
    obtain ⟨waits, pending⟩ : s.receiver = .waiting ∧ 0 < s.signals := turn
    have awake : s.cpipe.c ≠ none := fun null => by grind [inFlight]
    refine ⟨_, rfl, items, finished, locked, received, ?_, nofun, ?_, nofun, ?_⟩
    all_goals grind [inFlight]
  | take =>
    obtain ⟨on, more⟩ := woken turn
    have found := (Ypipe.read_of_lt more).1
    rw [Mailbox.step]
    match read : s.cpipe.read with
    | (some cmd, cpipe) => exact ⟨_, rfl, inv.taken on read⟩
    | (none, cpipe) => simp [read] at found

/-- In every interleaving: no assertion fails, at most one signal is under way, the commands arrive
    once each and in the order in which they were sent, all of them if none is left, and a passive
    receiver with a command has a signal unless a sender is about to send it. When `recv` looks into
    the pipe and there is a command, it returns the first that was not received yet. -/
theorem mailbox_loses_nothing [DecidableEq ι] (reached : Reaches step InTurn ({} : Mailbox ι β) s) :
    (∀ a, s.InTurn a → ∃ t, s.step a = .ok t) ∧ s.inFlight ≤ 1 ∧ s.received <+: s.sent ∧
      (∀ i, s.received.filter (·.1 = i) <+: s.sent.filter (·.1 = i)) ∧
      (s.sync = none → s.cpipe.checkRead.1 = false → s.received = s.sent) ∧
      (s.signalling = [] → s.active = false → s.cpipe.checkRead.1 = true → 0 < s.signals) ∧
      ∀ a, s.InTurn a → a = .recv ∧ s.active = true ∧ s.cpipe.checkRead.1 = true ∨ a = .take →
        ∃ t cmd, s.step a = .ok t ∧ t.receiver = .idle ∧ t.received = s.received ++ [cmd] ∧
          s.sent[s.received.length]? = some cmd := by
  have null : (Ypipe.new : Ypipe (ι × β)).checkRead.2.c = none := (Ypipe.checkRead_of_eq rfl).2.2
  have inv : s.Inv := reached.invariant
    ⟨rfl, rfl, by simp, rfl, by simp [inFlight], fun awake => absurd null awake, nofun, nofun, nofun⟩
    fun s a t inv turn taken => by
      obtain ⟨t', taken', inv'⟩ := inv.step turn
      exact Except.ok.inj (taken'.symm.trans taken) ▸ inv'
  have first : s.received <+: s.sent := inv.received ▸ List.take_prefix _ _
  refine ⟨fun a turn => ?_, ?_, first, fun i => first.filter _, fun free nothing => ?_,
    fun sent passive some_ => ?_, fun a turn looks => ?_⟩
  · obtain ⟨t, taken, -⟩ := inv.step turn
    exact ⟨t, taken⟩
  · by_cases null : s.cpipe.c = none
    · simp [inv.asleep null]
    · cases on : s.active with
      | false => simp [inv.passive null on]
      | true => simp [inv.active on]
  · have last : s.cpipe.front = s.sent.length := by
      have := s.cpipe.front_le_w
      have := inv.unflushed.mp free
      simp only [Ypipe.checkRead_fst, decide_eq_false_iff_not] at nothing
      have := inv.finished
      omega
    simpa [last] using inv.received
  · have awake : s.cpipe.c ≠ none := fun null => by
      have := s.cpipe.asleep null
      simp [Ypipe.checkRead_fst, this] at some_
    have := (inv.passive awake passive).2
    simp only [inFlight, sent, List.length_nil] at this
    omega
  · have more : s.cpipe.front < s.cpipe.w := by
      rcases looks with ⟨-, -, some_⟩ | rfl
      · simpa [Ypipe.checkRead_fst] using some_
      · exact (inv.woken turn).2
    obtain ⟨cmd, read, oldest⟩ := inv.oldest more
    rcases looks with ⟨rfl, on, -⟩ | rfl
    · exact ⟨_, cmd, by rw [step, if_pos on, read], rfl, rfl, oldest⟩
    · exact ⟨_, cmd, by rw [step, read], rfl, rfl, oldest⟩

theorem mailbox_loses_nothing_of_two : ∃ s, Reaches step InTurn ({} : Mailbox Bool Nat) s ∧
    s.sent = [(true, 1), (false, 2)] ∧ s.received = [(true, 1)] ∧ s.active = true ∧
    s.inFlight ≤ 1 :=
  exists_run_and₃
    [.recv, .write true 1, .flush true, .write false 2, .signal true, .wake, .flush false, .take]
    (by decide +kernel) fun _ reached _ _ _ => (mailbox_loses_nothing reached).2.1

end Mailbox

end Zmq
