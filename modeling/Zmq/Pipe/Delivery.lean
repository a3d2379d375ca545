import Zmq.Pipe.Delimiter
import Zmq.Pipe.Stream

/-! # What a pipe delivers

One direction of a pair without conflation and without hiccups, from the calls of its
writer to the results of its reader's `read`. A frame reaches the reader only with all
the other frames of its message, and a reader that waits for the delimiter has got
everything its peer finished before it called `terminate`.

A message is what `write` accepted up to a frame without MORE, or the disconnect message
of the pipe. The delimiter is not a message; nobody but `terminate` writes it.
-/

namespace Zmq

open Lib

namespace Ypipe

variable {α : Type} {y y' : Ypipe α}

/-- The finished items its reader has not consumed yet, flushed or not. -/
def finished (y : Ypipe α) : List α := (y.items.take y.f).drop y.front

theorem finished_eq (y : Ypipe α) : y.finished = y.unread ++ (y.items.take y.f).drop y.w := by
  have := y.front_le_w
  have := y.w_le_f
  have := y.f_le_back
  have split : y.items.take y.f = y.items.take y.w ++ (y.items.take y.f).drop y.w := by
    conv_lhs => rw [← List.take_append_drop y.w (y.items.take y.f)]
    rw [List.take_take, Nat.min_eq_left (by omega)]
  conv_lhs => rw [finished, split]
  rw [List.drop_append_of_le_length (by simp; omega)]
  rfl

theorem finished_of_unread {got : List α} (items : y'.items = y.items) (w : y'.w = y.w)
    (f : y'.f = y.f) (split : y.unread = got ++ y'.unread) : y.finished = got ++ y'.finished := by
  rw [finished_eq, finished_eq, split, items, w, f, List.append_assoc]

theorem finished_flush (y : Ypipe α) : y.flush.2.finished = y.finished := by
  simp [finished]

theorem finished_cut (items : y'.items = y.items.take y.f) (front : y'.front = y.front)
    (f : y'.f = y.f) : y'.finished = y.finished := by
  rw [finished, items, front, f, List.take_take, Nat.min_self]
  rfl

theorem finished_prefix_write (y : Ypipe α) (v : α) (incomplete : Bool) :
    y.finished <+: (y.write v incomplete).finished := by
  have := y.front_le_w
  have := y.w_le_f
  have := y.f_le_back
  have longer : y.items.take y.f <+: (y.write v incomplete).items.take (y.write v incomplete).f := by
    rw [List.prefix_take_iff, write_items, write_f]
    refine ⟨(List.take_prefix _ _).trans (List.prefix_append _ _), ?_⟩
    simp only [List.length_take]
    split <;> omega
  obtain ⟨rest, whole⟩ := longer
  refine ⟨rest, ?_⟩
  rw [finished, finished, ← whole, write_front, List.drop_append_of_le_length (by simp; omega)]

theorem finished_write (finished : y.f = y.items.length) (v : α) :
    (y.write v false).finished = y.finished ++ [v] := by
  have := y.front_le_w
  have := y.w_le_f
  simp only [Ypipe.finished, write_items, write_front]
  rw [List.take_of_length_le (by simp), List.take_of_length_le (by omega),
    List.drop_append_of_le_length (by omega)]

end Ypipe

namespace Upipe

variable {done begun left : List Msg} {live live' : Prop} {u u' : Upipe} {m : Msg}

/-! ## Finished messages -/

theorem filter_isData (frames : List Msg) :
    (frames.filter (!·.isDelimiter)).filter Msg.isData = frames.filter Msg.isData := by
  rw [List.filter_filter]
  apply List.filter_congr
  intro m _
  simp only [Msg.isData]
  cases m.isDelimiter <;> simp

theorem Logs.taken_inOrder (logs : u.Logs done begun live) :
    u.taken <+: done.filter Msg.isData := by
  cases logs with
  | @normal y same rest =>
    have := y.front_le_w
    have := y.w_le_f
    rw [← same, filter_isData]
    exact (List.take_prefix_take_left (by omega)).filter _

/-! ## The end of the stream -/

/-- A delimiter stands among the finished items; the reader will be handed `left` before
    it gets there. -/
inductive Ends (left : List Msg) : Upipe → Prop where
  | normal {y : Ypipe Msg} {before after : List Msg} :
      y.finished = before ++ .initDelimiter :: after → (∀ m ∈ before, m.isDelimiter = false) →
      before.filter Msg.isData = left → Ends left (.normal y)

theorem before_delimiter {skipped rest before after : List Msg}
    (creds : ∀ k ∈ skipped, k.isCredential = true)
    (split : skipped ++ rest = before ++ .initDelimiter :: after) :
    ∃ between, before = skipped ++ between ∧ rest = between ++ .initDelimiter :: after := by
  rcases List.append_eq_append_iff.mp split with ⟨between, whole, rest⟩ | ⟨more, whole, rest⟩
  · exact ⟨between, whole, rest⟩
  · cases more with
    | nil => exact ⟨[], by simpa using whole.symm, by simpa using rest.symm⟩
    | cons k more =>
      obtain ⟨rfl, -⟩ := List.cons.inj rest
      exact absurd (creds .initDelimiter (by simp [whole])) (by simp)

section

variable (ends : u.Ends left)
include ends

theorem Ends.dry (dry : u.Dry u') : u'.Ends left := by
  cases dry with
  | conflate => cases ends
  | @normal y y' items w f front c creds =>
    cases ends with
    | @normal _ before after split clean found =>
      have none_left : y'.unread = [] := Ypipe.unread_of_eq (by rw [front, w])
      rw [Ypipe.finished_of_unread items w f (by rw [none_left, List.append_nil])] at split
      obtain ⟨between, rfl, rest⟩ := before_delimiter creds split
      refine .normal rest (fun m member => clean m (List.mem_append_right _ member)) ?_
      rw [← found, List.filter_append, filter_credentials creds, List.nil_append]

theorem Ends.peeked (peeked : u.Peeked u') : u'.Ends left := by
  cases peeked with
  | conflate => cases ends
  | normal items w f front =>
    cases ends with
    | normal split clean found =>
      exact .normal (by rw [Ypipe.finished, items, f, front]; exact split) clean found

theorem Ends.takes (takes : u.Takes m u') :
    (m.isDelimiter = true → left = []) ∧ (m.isDelimiter = false → m.isCredential = false →
      ∃ rest, left = m :: rest ∧ u'.Ends rest) := by
  cases takes with
  | conflate => cases ends
  | @normal y y' skipped items w f c creds unread front =>
    cases ends with
    | @normal _ before after split clean found =>
      have moved : y.finished = skipped ++ m :: y'.finished := by
        have parts : y.unread = (skipped ++ [m]) ++ y'.unread := by simpa using unread
        simpa using Ypipe.finished_of_unread items w f parts
      rw [moved] at split
      obtain ⟨between, rfl, rest⟩ := before_delimiter creds split
      rw [List.filter_append, filter_credentials creds, List.nil_append] at found
      cases between with
      | nil =>
        obtain ⟨rfl, -⟩ := List.cons.inj rest
        exact ⟨fun _ => found.symm, nofun⟩
      | cons k between =>
        obtain ⟨rfl, onward⟩ := List.cons.inj rest
        have data : m.isDelimiter = false := clean m (by simp)
        refine ⟨fun delimiter => by simp [data] at delimiter, fun _ plain => ?_⟩
        refine ⟨between.filter Msg.isData, ?_, .normal onward ?_ rfl⟩
        · rw [← found]
          simp [Msg.isData, data, plain]
        · intro k member
          exact clean k (by simp [member])

theorem Ends.cut (cut : u.Cut u') : u'.Ends left := by
  cases cut with
  | conflate => cases ends
  | normal items front w f c =>
    cases ends with
    | normal split clean found =>
      have closed : _ = _ := (Ypipe.finished_cut items front f).trans split
      exact .normal closed clean found

theorem Ends.flush : u.flush.2.Ends left := by
  cases ends with
  | @normal y before after split clean found =>
    exact .normal (by rw [Ypipe.finished_flush, split]) clean found

theorem Ends.write (m : Msg) (incomplete lock : Bool) : (u.write m incomplete lock).Ends left := by
  cases ends with
  | @normal y before after split clean found =>
    obtain ⟨more, whole⟩ := y.finished_prefix_write m incomplete
    have longer : (y.write m incomplete).finished =
        before ++ .initDelimiter :: (after ++ more) := by
      rw [← whole, split]
      simp
    exact .normal longer clean found

end

theorem Logs.ends (logs : u.Logs done begun live) (clean : ∀ m ∈ u.items, m.isDelimiter = false)
    (cut : u.Cut u') (lock : Bool) :
    ∃ left, (u'.write .initDelimiter false lock).flush.2.Ends left ∧
      u.taken ++ left = done.filter Msg.isData := by
  cases cut with
  | conflate => cases logs
  | @normal y y' items front w f c =>
    have := y.front_le_w
    have := y.w_le_f
    have := y.f_le_back
    cases logs with
    | normal same rest =>
      have delimited : (y'.write .initDelimiter false).finished =
          y.finished ++ .initDelimiter :: [] := by
        rw [Ypipe.finished_write (by rw [f, items]; simp; omega),
          Ypipe.finished_cut items front f]
      refine ⟨y.finished.filter Msg.isData, Ends.flush (.normal delimited ?_ rfl), ?_⟩
      · intro m member
        exact clean m (List.mem_of_mem_take (List.mem_of_mem_drop member))
      · have split : y.items.take y.f = y.items.take y.front ++ y.finished := by
          conv_lhs => rw [← List.take_append_drop y.front (y.items.take y.f)]
          rw [List.take_take, Nat.min_eq_left (by omega)]
          rfl
        rw [← same, filter_isData, split, List.filter_append]
        rfl

end Upipe

/-- The calls that keep a reader waiting for what its peer has written. -/
def Action.patient : Action → Bool
  | .terminate .. | .setNodelay => false
  | _ => true

def Action.delivers : Action → Bool
  | .hiccup => false
  | .write m _ => !m.isDelimiter
  | _ => true

namespace Pair

variable {s t : Pair} {e x : End} {a : Action} {done begun got : List Msg} {m : Msg}

/-! ## What a step leaves alone -/

theorem Outcome.unasked (outcome : Outcome s e a t) (patient : a.patient = true)
    (unasked : (s.pipe e).state ≠ .termReqSent1 ∧ (s.pipe e).state ≠ .termReqSent2) :
    (t.pipe e).state ≠ .termReqSent1 ∧ (t.pipe e).state ≠ .termReqSent2 := by
  cases outcome with
  | checked reading | read reading => cases reading <;> simp_all
  | write how | rollback how | flush how | hiccup how | sendDisconnectMsg how =>
    cases how <;> simpa using unasked
  | terminate | setNodelay => cases patient
  | deliver at_head receiving =>
    cases receiving with
    | crosses state => exact absurd (by simpa using state) unasked.1
    | waits | answers => simp
    | _ => simpa [Pipe.setHwms] using unasked
  | _ => simpa [Pipe.setHwms, Pipe.setHwmsBoost] using unasked

theorem Outcome.delay (outcome : Outcome s e a t) (patient : a.patient = true) :
    (t.pipe e).delay = (s.pipe e).delay := by
  cases outcome with
  | checked how | read how | sendDisconnectMsg how | write how | rollback how | flush how
  | hiccup how => cases how <;> simp
  | terminate | setNodelay => cases patient
  | deliver at_head receiving => cases receiving <;> simp [Pipe.setHwms]
  | _ => simp [Pipe.setHwms, Pipe.setHwmsBoost]

theorem Terminating.closed {delay : Bool} (terminating : Terminating s e delay t) :
    (t.pipe e).state ≠ .active := by
  cases terminating with
  | already states => rcases states with state | state | state <;> simp [state]
  | delayed lock state => simp [state]
  | asked | answered => simp

theorem Reading.stays_active {r : Option Msg} (reading : Reading s e r t) (free : s.LockFree)
    (clean : ∀ k q, s.queue e k = some q → ∀ m ∈ q.items, m.isDelimiter = false)
    (active : (s.pipe e).state = .active) : (t.pipe e).state = .active := by
  cases reading with
  | closed | dry | accepted => simpa using active
  | delimiter _ here takes last | answered _ here takes last =>
    have data := clean _ _ here _ (takes.mem_items (free.queue _ _ _ here))
    simp [data] at last

theorem Outcome.stays_active (outcome : Outcome s e a t)
    (stays : ∀ delay lock, a ≠ .terminate delay lock) (free : s.LockFree)
    (clean : ∀ k q, s.queue e k = some q → ∀ m ∈ q.items, m.isDelimiter = false)
    (untold : .pipeTerm ∉ s.mailbox e) (active : (s.pipe e).state = .active) :
    (t.pipe e).state = .active := by
  cases outcome with
  | checked reading | read reading => exact reading.stays_active free clean active
  | write how | rollback how | flush how | hiccup how | sendDisconnectMsg how =>
    cases how <;> simpa using active
  | terminate => exact absurd rfl (stays _ _)
  | deliver at_head receiving =>
    cases receiving with
    | waits | answers | crosses => exact absurd (by rw [at_head]; exact List.mem_cons_self) untold
    | _ => simpa [Pipe.setHwms] using active
  | _ => simpa [Pipe.setHwms, Pipe.setHwmsBoost] using active

theorem Sound.sent_of_mem (sound : s.Sound) {c : Command} (member : c ∈ s.mailbox e) :
    ∃ p q rest, Phase.next p c.signal = some q ∧ absorb Phase.next q rest =
      some (Phase.said (s.pipe e.peer).state (s.pipe e.peer).deleted) := by
  have synced := sound.inv.synced e
  obtain ⟨before, after, split⟩ := List.append_of_mem member
  have box : s.handshake.box e =
      before.map Command.signal ++ c.signal :: after.map Command.signal := by
    simp [handshake, split]
  rw [box, absorb_append] at synced
  obtain ⟨p, -, onward⟩ := Option.bind_eq_some_iff.mp synced
  obtain ⟨q, moved, rest⟩ := Option.bind_eq_some_iff.mp onward
  exact ⟨p, q, _, moved, rest⟩

theorem Sound.asks_of_mem (sound : s.Sound) (member : .pipeTerm ∈ s.mailbox e) :
    (s.pipe e.peer).state = .termReqSent1 ∨ (s.pipe e.peer).state = .termReqSent2 := by
  obtain ⟨p, q, rest, moved, ends⟩ := sound.sent_of_mem member
  exact Phase.state_of_asks (absorb_closed (P := fun p : Phase => p.asks = true)
    (fun _ _ _ => Phase.asks_next) (Phase.asks_of_term moved) ends)

theorem Sound.acks_of_mem (sound : s.Sound) (member : .pipeTermAck ∈ s.mailbox e) :
    ¬ s.Silent e.peer := by
  obtain ⟨p, q, rest, moved, ends⟩ := sound.sent_of_mem member
  have answered := absorb_closed (P := fun p : Phase => p.acks = true)
    (fun _ _ _ => Phase.acks_next) (Phase.acks_of_ack moved) ends
  intro silent
  exact absurd (silent.symm.trans answered) nofun

end Pair

/-- One direction of a pair with its traffic. -/
structure Delivery where
  pair : Pair
  written : List (List Msg)
  /-- The frames of a message that is not finished. -/
  begun : List Msg
  /-- What was finished when the writer first called `terminate`. -/
  before : Option (List (List Msg))
  returned : List Msg
  /-- The reader has neither called `terminate` nor cleared `_delay`. -/
  patient : Bool

namespace Delivery

def start (hwms : End → Int) : Delivery where
  pair := .attached hwms fun _ => false
  written := []
  begun := []
  before := none
  returned := []
  patient := true

def put (s : Delivery) (m : Msg) : Delivery :=
  if m.more then { s with begun := s.begun ++ [m] }
  else { s with written := s.written ++ [s.begun ++ [m]], begun := [] }

def wrote (s : Delivery) (e : End) : Action → Delivery
  | .rollback => { s with begun := [] }
  | .terminate .. => { s with begun := [], before := some (s.before.getD s.written) }
  | .sendDisconnectMsg _ =>
    if (s.pair.pipe e).disconnectMsg.size = 0 then s
    else { s with written := s.written ++ [[(s.pair.pipe e).disconnectMsg]], begun := [] }
  | _ => s

def writerStep (e : End) (s : Delivery) : Action → Except Fault Delivery
  | .write m lock => do
      let (accepted, pair) ← s.pair.write e m lock
      if accepted then .ok { s.put m with pair := pair } else .ok { s with pair := pair }
  | a => do
      let pair ← s.pair.step (e, a)
      .ok { s.wrote e a with pair := pair }

def readerStep (e : End) (s : Delivery) : Action → Except Fault Delivery
  | .read => do
      let (m, pair) ← s.pair.read e
      .ok { s with pair := pair, returned := s.returned ++ m.toList }
  | a => do
      let pair ← s.pair.step (e, a)
      .ok { s with pair := pair, patient := s.patient && a.patient }

/-- An action at the writing end `e` or at its peer, which reads. -/
def step (e : End) (s : Delivery) (a : End × Action) : Except Fault Delivery :=
  if a.1 = e then s.writerStep e a.2 else s.readerStep e.peer a.2

def Allowed (s : Delivery) (a : End × Action) : Prop :=
  s.pair.Considerate a ∧ a.2.delivers = true
  deriving Decidable

variable {s t : Delivery} {e : End} {a : Action} {m : Msg} {pair : Pair} {r : Option Msg}
  {waits lock : Bool}

theorem Allowed.outcome (allowed : s.Allowed (e, a)) (sound : s.pair.Sound)
    (taken : s.pair.step (e, a) = .ok pair) : Pair.Outcome s.pair e a pair :=
  sound.outcome allowed.1.1 allowed.1.silent taken

theorem Allowed.not_hiccup (allowed : s.Allowed (e, a)) : a ≠ .hiccup := by
  rintro rfl
  exact absurd allowed.2 (by simp [Action.delivers])

theorem readerStep_ok (other : a ≠ .read) (taken : s.readerStep e a = .ok t) :
    ∃ pair, s.pair.step (e, a) = .ok pair ∧
      t = { s with pair := pair, patient := s.patient && a.patient } := by
  cases a with
  | read => exact absurd rfl other
  | _ =>
    obtain ⟨pair, ends, result⟩ := bind_ok.mp taken
    exact ⟨pair, ends, (Except.ok.inj result).symm⟩

theorem wrote_before (stays : ∀ delay lock, a ≠ .terminate delay lock) :
    (s.wrote e a).before = s.before := by
  cases a with
  | terminate delay lock => exact absurd rfl (stays delay lock)
  | sendDisconnectMsg lock =>
    simp only [wrote]
    split <;> rfl
  | _ => rfl

theorem writerStep_ok (taken : s.writerStep e a = .ok t) :
    s.pair.step (e, a) = .ok t.pair ∧ t.returned = s.returned ∧ t.patient = s.patient ∧
      t.before = (s.wrote e a).before := by
  cases a with
  | write m lock =>
    obtain ⟨⟨accepted, pair⟩, ends, result⟩ := bind_ok.mp taken
    cases accepted with
    | false =>
      cases result
      simp [Pair.step, ends, Except.map, wrote]
    | true =>
      cases result
      simp only [Pair.step, ends, Except.map, wrote, put]
      split <;> simp
  | sendDisconnectMsg lock =>
    obtain ⟨pair, ends, rfl⟩ := bind_return.mp taken
    simp only [ends, wrote]
    split <;> simp
  | _ =>
    obtain ⟨pair, ends, rfl⟩ := bind_return.mp taken
    exact ⟨ends, rfl, rfl, rfl⟩

structure Inv (e : End) (s : Delivery) : Prop where
  logged : s.pair.Logged e s.written.flatten s.begun
  consumes : s.pair.Consumes e.peer s.returned
  inOrder : s.returned <+: s.written.flatten.filter Msg.isData
  data : ∀ m ∈ s.written.flatten ++ s.begun, m.isDelimiter = false
  parting : ∀ x, s.pair.Parting x
  kept : ∀ before, s.before = some before → before <+: s.written

namespace Inv

theorem start (hwms : End → Int) : (start hwms).Inv e where
  logged := .attached hwms
  consumes := .attached hwms
  inOrder := List.prefix_refl _
  data := by simp [Delivery.start]
  parting _ := ⟨[], rfl⟩
  kept := nofun

section

variable (inv : s.Inv e)
include inv

theorem sound : s.pair.Sound := inv.logged.sound

theorem onward (allowed : s.Allowed (e, a)) (outcome : Pair.Outcome s.pair e a t.pair)
    (logged : t.pair.Logged e t.written.flatten t.begun) (grows : s.written <+: t.written)
    (returned : t.returned = s.returned)
    (data : ∀ m ∈ t.written.flatten ++ t.begun, m.isDelimiter = false)
    (kept : ∀ before, t.before = some before → before <+: t.written) : t.Inv e where
  logged := logged
  consumes := by
    rw [returned]
    exact inv.consumes.writer (by simpa using allowed.1.1) (by simpa using outcome)
  inOrder := by
    rw [returned]
    obtain ⟨more, whole⟩ := grows
    refine inv.inOrder.trans ?_
    rw [← whole, List.flatten_append, List.filter_append]
    exact List.prefix_append _ _
  data := data
  parting x := outcome.parting (inv.parting x)
  kept := kept

theorem write {accepted : Bool} (allowed : s.Allowed (e, .write m lock))
    (taken : s.pair.write e m lock = .ok (accepted, pair)) :
    Inv e { if accepted then s.put m else s with pair := pair } := by
  have stays : (s.pair.pipe e).deleted = false := allowed.1.1
  have clean : m.isDelimiter = false := by simpa [Action.delivers] using allowed.2
  have writing := inv.sound.writing stays taken
  cases accepted with
  | false =>
    exact inv.onward (t := { s with pair := pair }) allowed (.write writing)
      (inv.logged.refused stays writing) (List.prefix_refl _) rfl inv.data inv.kept
  | true =>
    have frames : ∀ k ∈ s.written.flatten ++ (s.begun ++ [m]), k.isDelimiter = false := by
      rw [← List.append_assoc]
      exact forall_mem_concat inv.data clean
    simp only [put]
    cases more : m.more with
    | true =>
      exact inv.onward (t := { s with pair := pair, begun := s.begun ++ [m] }) allowed
        (.write writing) (inv.logged.more stays writing more) (List.prefix_refl _) rfl frames
        inv.kept
    | false =>
      have logged := inv.logged.finish stays writing more
      have all : (s.begun ++ [m]).filter (!·.isDelimiter) = s.begun ++ [m] := by
        rw [List.filter_eq_self]
        intro k member
        simp [frames k (List.mem_append_right _ member)]
      rw [all] at logged
      refine inv.onward (t := { s with
          pair := pair, written := s.written ++ [s.begun ++ [m]], begun := [] })
        allowed (.write writing) (by simpa using logged) (List.prefix_append _ _) rfl
        (by simpa using frames) ?_
      intro before same
      exact (inv.kept before same).trans (List.prefix_append _ _)

section

variable (allowed : s.Allowed (e, a))
include allowed

theorem idle (outcome : Pair.Outcome s.pair e a pair)
    (logged : pair.Logged e s.written.flatten s.begun) : Inv e { s with pair := pair } :=
  inv.onward (t := { s with pair := pair }) allowed outcome logged (List.prefix_refl _) rfl inv.data
    inv.kept

theorem cut {before : Option (List (List Msg))}
    (outcome : Pair.Outcome s.pair e a pair) (logged : pair.Logged e s.written.flatten [])
    (kept : ∀ b, before = some b → b <+: s.written) :
    Inv e { s with pair := pair, begun := [], before := before } := by
  refine inv.onward (t := { s with pair := pair, begun := [], before := before }) allowed outcome
    logged (List.prefix_refl _) rfl ?_ kept
  intro m member
  exact inv.data m (List.mem_append_left _ (by simpa using member))

theorem wrote (other : ∀ m lock, a ≠ .write m lock)
    (taken : s.pair.step (e, a) = .ok pair) : Inv e { s.wrote e a with pair := pair } := by
  have outcome := allowed.outcome inv.sound taken
  have can := allowed.1.1
  cases a with
  | write m lock => exact absurd rfl (other m lock)
  | rollback =>
    cases outcome with
    | rollback rolling =>
      exact inv.cut allowed (.rollback rolling) (inv.logged.rollback can rolling) inv.kept
  | flush =>
    cases outcome with
    | flush flushing =>
      exact inv.idle allowed (.flush flushing) (inv.logged.flush can flushing)
  | terminate delay lock =>
    have logged := inv.logged.writer can outcome rfl
    have closed : (pair.pipe e).state ≠ .active := by
      cases outcome with
      | terminate terminating => exact terminating.closed
    refine inv.cut allowed outcome ⟨logged.toStream, ?_⟩ ?_
    · intro k q found
      exact (logged.queue k q found).of_dead closed
    · intro before same
      cases same
      cases at_first : s.before with
      | none => exact List.prefix_refl _
      | some before => exact inv.kept before at_first
  | sendDisconnectMsg lock =>
    simp only [Delivery.wrote]
    by_cases none_left : (s.pair.pipe e).disconnectMsg.size = 0
    · rw [if_pos none_left]
      obtain rfl : s.pair = pair := by
        simpa [Pair.step, Pair.sendDisconnectMsg, none_left] using taken
      exact inv
    · rw [if_neg none_left]
      cases outcome with
      | sendDisconnectMsg disconnecting =>
        have logged := inv.logged.disconnect can disconnecting none_left
        have plain := (inv.parting e).plain.1
        rw [List.filter_eq_self.mpr (by simp [plain])] at logged
        refine inv.onward (t := { s with
            pair := pair, written := s.written ++ [[(s.pair.pipe e).disconnectMsg]], begun := [] })
          allowed (.sendDisconnectMsg disconnecting) (by simpa using logged)
          (List.prefix_append _ _) rfl ?_ ?_
        · intro m member
          have member : m ∈ s.written.flatten ∨ m = (s.pair.pipe e).disconnectMsg := by
            simpa using member
          rcases member with old | rfl
          · exact inv.data m (List.mem_append_left _ old)
          · exact plain
        · intro before same
          exact (inv.kept before same).trans (List.prefix_append _ _)
  | _ => exact inv.idle allowed outcome (inv.logged.writer can outcome rfl)

theorem writer (taken : s.writerStep e a = .ok t) : t.Inv e := by
  cases a with
  | write m lock =>
    obtain ⟨⟨accepted, pair⟩, ends, result⟩ := bind_ok.mp taken
    have next := inv.write allowed ends
    cases accepted with
    | false | true => exact Except.ok.inj result ▸ next
  | _ =>
    obtain ⟨pair, ends, result⟩ := bind_ok.mp taken
    exact Except.ok.inj result ▸ inv.wrote allowed nofun ends

end

theorem read (allowed : s.Allowed (e.peer, .read)) (reading : Pair.Reading s.pair e.peer r pair) :
    Inv e { s with pair := pair, returned := s.returned ++ r.toList } := by
  have outcome : Pair.Outcome s.pair e.peer .read pair := .read reading
  have logged := inv.logged.reader allowed.1.1 outcome nofun
  have consumes := inv.consumes.read allowed.1.1 reading
  refine ⟨logged, consumes, ?_, inv.data, fun x => outcome.parting (inv.parting x),
    inv.kept⟩
  cases reading with
  | closed | dry | delimiter | answered => simpa using inv.inOrder
  | @accepted q q' m readable here takes =>
    have found : (((s.pair.setQueue e.peer (s.pair.pipe e.peer).inPipe (some q')).setPipe e.peer
        ((s.pair.pipe e.peer).countRead m)).postIf e.peer
          ((s.pair.pipe e.peer).countRead m).reports (.activateWrite
            ((s.pair.pipe e.peer).countRead m).msgsRead)).queue e.peer
          (s.pair.pipe e.peer).inPipe = some q' := by simp
    rw [← consumes.queue _ _ found]
    exact (logged.queue _ _ found).taken_inOrder

theorem reader (allowed : s.Allowed (e.peer, a))
    (taken : s.readerStep e.peer a = .ok t) : t.Inv e := by
  by_cases reads : a = .read
  · subst reads
    obtain ⟨⟨m, pair⟩, ends, result⟩ := bind_ok.mp taken
    exact Except.ok.inj result ▸ inv.read allowed (inv.sound.reading allowed.1.1 ends)
  · obtain ⟨pair, ends, rfl⟩ := readerStep_ok reads taken
    have outcome := allowed.outcome inv.sound ends
    exact ⟨inv.logged.reader allowed.1.1 outcome allowed.not_hiccup,
      inv.consumes.reader allowed.1.1 outcome allowed.not_hiccup reads, inv.inOrder, inv.data,
      fun x => outcome.parting (inv.parting x), inv.kept⟩

end

end Inv

/-! ## A patient reader -/

/-- What the reader still has to get of the messages `before`, until it has read the
    delimiter. -/
structure Owed (e : End) (s : Delivery) (before : List (List Msg)) : Prop where
  listens : (s.pair.pipe e.peer).Listens → ∀ k q, s.pair.queue e.peer k = some q →
    ∃ left, q.Ends left ∧ s.returned ++ left = before.flatten.filter Msg.isData
  ended : ¬ (s.pair.pipe e.peer).Listens → s.returned = before.flatten.filter Msg.isData

namespace Owed

variable {before : List (List Msg)}

theorem writer (owed : s.Owed e before) (outcome : Pair.Outcome s.pair e a t.pair)
    (returned : t.returned = s.returned) : t.Owed e before where
  listens := by
    rw [outcome.pipe_peer, returned]
    intro listens
    refine outcome.queues_writer ?_ ?_ ?_ (owed.listens listens)
    · rintro u u' ⟨left, ends, rest⟩ cut
      exact ⟨left, ends.cut cut, rest⟩
    · rintro u ⟨left, ends, rest⟩
      exact ⟨left, ends.flush, rest⟩
    · rintro u m incomplete lock - ⟨left, ends, rest⟩
      exact ⟨left, ends.write m incomplete lock, rest⟩
  ended := by
    rw [outcome.pipe_peer, returned]
    exact owed.ended

theorem idle (owed : s.Owed e before)
    (listens : (pair.pipe e.peer).Listens ↔ (s.pair.pipe e.peer).Listens)
    (queue : ∀ k q, pair.queue e.peer k = some q → s.pair.queue e.peer k = some q)
    {patient : Bool} : Owed e { s with pair := pair, patient := patient } before where
  listens open_ k q found := owed.listens (listens.mp open_) k q (queue k q found)
  ended closed := owed.ended fun open_ => closed (listens.mpr open_)

theorem reading (owed : s.Owed e before) (stream : s.pair.Stream e)
    (reading : Pair.Reading s.pair e.peer r pair) :
    Owed e { s with pair := pair, returned := s.returned ++ r.toList } before := by
  have open_ (readable : (s.pair.pipe e.peer).readable = true) : (s.pair.pipe e.peer).Listens :=
    (Pipe.readable_iff.mp readable).2
  cases reading with
  | closed => simpa using owed
  | @dry q q' readable here dry =>
    obtain ⟨left, ends, rest⟩ := owed.listens (open_ readable) _ _ here
    refine ⟨fun _ => ?_, fun closed => ?_⟩
    · exact stream.change (u := q') here (by simp)
        ⟨left, ends.dry dry, by simpa using rest⟩
    · exact absurd (by simpa [Pipe.Listens] using open_ readable) closed
  | @accepted q q' m readable here takes plain data =>
    obtain ⟨left, ends, rest⟩ := owed.listens (open_ readable) _ _ here
    obtain ⟨left', rfl, ends'⟩ := (ends.takes takes).2 data plain
    refine ⟨fun _ => ?_, fun closed => ?_⟩
    · exact stream.change (u := q') here (by simp) ⟨left', ends', by simpa using rest⟩
    · exact absurd (by simpa [Pipe.Listens] using open_ readable) closed
  | delimiter readable here takes last | answered readable here takes last =>
    obtain ⟨left, ends, rest⟩ := owed.listens (open_ readable) _ _ here
    obtain rfl := (ends.takes takes).1 last
    exact ⟨fun listens => by simp [Pipe.Listens] at listens, fun _ => by simpa using rest⟩

end Owed

/-- What holds while the reader is patient. Before its writer calls `terminate` nothing
    has ended; afterwards the delimiter is behind all that was finished. -/
structure Patience (e : End) (s : Delivery) : Prop where
  delay : (s.pair.pipe e.peer).delay = true
  unasked : (s.pair.pipe e.peer).state ≠ .termReqSent1 ∧
    (s.pair.pipe e.peer).state ≠ .termReqSent2
  clean : s.pair.Carried fun x m => x = e ∨ s.before = none → m.isDelimiter = false
  opened : s.before = none → ∀ x, (s.pair.pipe x).state = .active
  owed : ∀ before, s.before = some before → s.Owed e before

theorem Owed.reader {before : List (List Msg)} (owed : s.Owed e before) (patience : s.Patience e)
    (stream : s.pair.Stream e) (outcome : Pair.Outcome s.pair e.peer a pair) (stays : a ≠ .hiccup)
    (other : a ≠ .read) (patient : a.patient = true) :
    Owed e { s with pair := pair, patient := waits } before := by
  cases outcome with
  | @peeked q q' readable here peeked =>
    have listens := (Pipe.readable_iff.mp readable).2
    obtain ⟨left, ends, rest⟩ := owed.listens listens _ _ here
    refine ⟨fun _ => ?_, fun closed => absurd listens closed⟩
    exact stream.change (u := q') here (by simp) ⟨left, ends.peeked peeked, rest⟩
  | checked reading =>
    have next := owed.reading stream reading
    exact ⟨by simpa using next.listens, by simpa using next.ended⟩
  | read => exact absurd rfl other
  | hiccup => exact absurd rfl stays
  | write how | rollback how | flush how | sendDisconnectMsg how =>
    cases how <;> exact owed.idle (by simp [Pipe.Listens]) (by simp)
  | terminate | setNodelay => cases patient
  | deliver at_head receiving =>
    cases receiving with
    | waits state => exact owed.idle (by simp_all [Pipe.Listens]) (by simp)
    | answers states =>
      have delay := patience.delay
      exact owed.idle (by simp_all [Pipe.Listens]) (by simp)
    | crosses state | answersAndLeaves state =>
      exact absurd (by simpa using state) patience.unasked.1
    | leaves states =>
      refine owed.idle (by simp [Pipe.Listens]) fun k q found => ?_
      exact Pair.found_of_free (by simpa using found)
    | _ =>
      exact owed.idle (by simp [Pipe.Listens, Pipe.setHwms]) (by simp)
  | _ =>
    exact owed.idle (by simp [Pipe.Listens, Pipe.setHwms, Pipe.setHwmsBoost]) (by simp)

namespace Patience

theorem start (hwms : End → Int) : (start hwms).Patience e where
  delay := rfl
  unasked := ⟨nofun, nofun⟩
  clean x k q found m member := by
    simp only [Delivery.start, Pair.attached, Pair.pipepair] at found
    split at found
    · cases found
      simp at member
    · cases found
  opened _ _ := rfl
  owed := nofun

section

variable (patience : s.Patience e)
include patience

theorem clean_outcome {x : End} (inv : s.Inv e)
    (outcome : Pair.Outcome s.pair x a t.pair) (delivers : a.delivers = true)
    (before : t.before = none → s.before = none)
    (stays : x.peer = e ∨ t.before = none → ∀ delay lock, a ≠ .terminate delay lock) :
    t.pair.Carried fun x m => x = e ∨ t.before = none → m.isDelimiter = false := by
  have now : s.pair.Carried fun x m => x = e ∨ t.before = none → m.isDelimiter = false := by
    intro x k q found m member here
    exact patience.clean x k q found m member (here.imp_right before)
  refine now.outcome outcome fun m incomplete puts here => ?_
  cases a with
  | write k lock =>
    obtain ⟨rfl, -⟩ := puts
    simpa [Action.delivers] using delivers
  | terminate delay lock => exact absurd rfl (stays here delay lock)
  | sendDisconnectMsg lock =>
    obtain ⟨rfl, -⟩ := puts
    exact (inv.parting x).plain.1
  | _ => cases puts

theorem untold (sound : s.pair.Sound) (none_yet : s.before = none)
    (x : End) : .pipeTerm ∉ s.pair.mailbox x := by
  intro member
  have active := patience.opened none_yet x.peer
  rcases sound.asks_of_mem member with state | state <;> simp [active] at state

theorem opened_outcome {x : End} (inv : s.Inv e) (none_yet : s.before = none)
    (outcome : Pair.Outcome s.pair x a pair) (stays : ∀ delay lock, a ≠ .terminate delay lock)
    (y : End) : (pair.pipe y).state = .active := by
  rcases y.eq_or_peer x with rfl | rfl
  · refine outcome.stays_active stays inv.logged.free ?_ (patience.untold inv.sound none_yet y)
      (patience.opened none_yet y)
    intro k q found m member
    exact patience.clean y k q found m member (.inr none_yet)
  · rw [outcome.pipe_peer]
    exact patience.opened none_yet _

theorem writer (inv : s.Inv e) (allowed : s.Allowed (e, a))
    (outcome : Pair.Outcome s.pair e a t.pair) (returned : t.returned = s.returned)
    (before : t.before = s.before) (stays : ∀ delay lock, a ≠ .terminate delay lock) :
    t.Patience e where
  delay := by rw [outcome.pipe_peer, patience.delay]
  unasked := by rw [outcome.pipe_peer]; exact patience.unasked
  clean := patience.clean_outcome inv outcome allowed.2 (by rw [before]; exact id) fun _ => stays
  opened none_yet := patience.opened_outcome inv (before.symm.trans none_yet) outcome stays
  owed b at_first := by
    rw [before] at at_first
    exact (patience.owed b at_first).writer outcome returned

theorem delimited {delay : Bool} (inv : s.Inv e) (none_yet : s.before = none)
    (terminating : Pair.Terminating s.pair e delay pair) :
    ∀ k q, pair.queue e.peer k = some q →
      ∃ left, q.Ends left ∧ s.returned ++ left = s.written.flatten.filter Msg.isData := by
  have active := patience.opened none_yet e
  cases terminating with
  | already states => rcases states with state | state | state <;> simp [active] at state
  | delayed lock state => simp [active] at state
  | answered state => simp [active] at state
  | @asked _ u u' k lock state here found cut =>
    have clean : ∀ m ∈ u.items, m.isDelimiter = false := by
      intro m member
      exact patience.clean e.peer k u found m member (.inr none_yet)
    obtain ⟨left, ends, rest⟩ := (inv.logged.queue k u found).ends clean cut lock
    rw [inv.consumes.queue k u found] at rest
    exact inv.logged.toStream.change (u := (u'.write .initDelimiter false lock).flush.2) found
      (by simp) ⟨left, ends, rest⟩

theorem terminate {delay : Bool} (inv : s.Inv e) (allowed : s.Allowed (e, .terminate delay lock))
    (outcome : Pair.Outcome s.pair e (.terminate delay lock) t.pair)
    (returned : t.returned = s.returned) (before : t.before = some (s.before.getD s.written)) :
    t.Patience e where
  delay := by rw [outcome.pipe_peer, patience.delay]
  unasked := by rw [outcome.pipe_peer]; exact patience.unasked
  clean := patience.clean_outcome inv outcome allowed.2 (by simp [before]) (by simp [before])
  opened := by simp [before]
  owed b at_first := by
    cases earlier : s.before with
    | some b' =>
      obtain rfl : b' = b := by simpa [before, earlier] using at_first
      exact (patience.owed b' earlier).writer outcome returned
    | none =>
      obtain rfl : s.written = b := by simpa [before, earlier] using at_first
      have active := patience.opened earlier
      refine ⟨fun _ => ?_, fun closed => ?_⟩
      · rw [returned]
        cases outcome with
        | terminate terminating => exact patience.delimited inv earlier terminating
      · rw [outcome.pipe_peer] at closed
        exact absurd (.inl (active e.peer)) closed

theorem reader (inv : s.Inv e) (allowed : s.Allowed (e.peer, a))
    (outcome : Pair.Outcome s.pair e.peer a pair) (patient : a.patient = true) {returned : List Msg}
    (owed : ∀ before, s.before = some before →
      Owed e { s with pair := pair, patient := waits, returned := returned } before) :
    Patience e { s with pair := pair, patient := waits, returned := returned } where
  delay := by rw [outcome.delay patient, patience.delay]
  unasked := outcome.unasked patient patience.unasked
  clean := by
    refine patience.clean_outcome (t := { s with pair := pair }) inv outcome allowed.2 id ?_
    rintro - delay lock rfl
    cases patient
  opened none_yet := by
    refine patience.opened_outcome inv none_yet outcome ?_
    rintro delay lock rfl
    cases patient
  owed := owed

end

end Patience

theorem invariant {hwms : End → Int} (reached : Reaches (step e) Allowed (start hwms) s) :
    s.Inv e ∧ (s.patient = true → s.Patience e) := by
  refine reached.invariant (P := fun s => s.Inv e ∧ (s.patient = true → s.Patience e))
    ⟨.start hwms, fun _ => .start hwms⟩ ?_
  rintro s ⟨x, a⟩ t ⟨inv, patience⟩ allowed taken
  rcases x.eq_or_peer e with rfl | rfl
  · rw [step, if_pos rfl] at taken
    refine ⟨inv.writer allowed taken, fun patient => ?_⟩
    obtain ⟨ends, returned, same, before⟩ := writerStep_ok taken
    have outcome := allowed.outcome inv.sound ends
    rw [same] at patient
    cases a with
    | terminate delay lock => exact (patience patient).terminate inv allowed outcome returned before
    | _ =>
      refine (patience patient).writer inv allowed outcome returned (before.trans ?_) nofun
      exact wrote_before nofun
  · rw [step, if_neg (by simp)] at taken
    refine ⟨inv.reader allowed taken, fun patient => ?_⟩
    by_cases reads : a = .read
    · subst reads
      obtain ⟨⟨m, pair⟩, ends, result⟩ := bind_ok.mp taken
      have reading := inv.sound.reading allowed.1.1 ends
      cases result
      refine (patience patient).reader inv allowed (.read reading) rfl fun before at_first => ?_
      exact ((patience patient).owed before at_first).reading inv.logged.toStream reading
    · obtain ⟨pair, ends, rfl⟩ := readerStep_ok reads taken
      obtain ⟨patient, patient'⟩ := Bool.and_eq_true_iff.mp patient
      have outcome := allowed.outcome inv.sound ends
      refine (patience patient).reader inv allowed outcome patient' fun before at_first => ?_
      exact ((patience patient).owed before at_first).reader (patience patient)
        inv.logged.toStream outcome allowed.not_hiccup reads patient'

theorem filter_isData_eq {frames : List Msg} (data : ∀ m ∈ frames, m.isDelimiter = false) :
    frames.filter Msg.isData = frames.filter (!·.isCredential) := by
  apply List.filter_congr
  intro m member
  simp [Msg.isData, data m member]

/-- The reader gets whole messages in order, and a patient one gets all of them before it
    confirms the termination. -/
theorem whole_messages_are_delivered (hwms : End → Int) (e : End) {s : Delivery}
    (reached : Reaches (step e) Allowed (start hwms) s) :
    s.returned <+: s.written.flatten.filter (!·.isCredential) ∧
      (s.patient = true → .pipeTermAck ∈ s.pair.mailbox e →
        ∃ before, s.before = some before ∧
          s.returned = before.flatten.filter (!·.isCredential)) := by
  obtain ⟨inv, patience⟩ := invariant reached
  have written : ∀ m ∈ s.written.flatten, m.isDelimiter = false := by
    intro m member
    exact inv.data m (List.mem_append_left _ member)
  refine ⟨?_, fun patient answered => ?_⟩
  · rw [← filter_isData_eq written]
    exact inv.inOrder
  · have patience := patience patient
    have state : (s.pair.pipe e.peer).state = .termAckSent := by
      have told := inv.sound.acks_of_mem answered
      have unasked := patience.unasked
      unfold Pair.Silent at told
      cases here : (s.pair.pipe e.peer).state <;> simp_all [Phase.said, Phase.acks]
    cases at_first : s.before with
    | none => simp [patience.opened at_first] at state
    | some before =>
      refine ⟨before, rfl, ?_⟩
      rw [(patience.owed before at_first).ended (by simp [Pipe.Listens, state])]
      apply filter_isData_eq
      intro m member
      obtain ⟨more, whole⟩ := inv.kept before at_first
      apply written m
      rw [← whole, List.flatten_append]
      exact List.mem_append_left _ member

private def goodbye : List (End × Action) :=
  [(.first, .write { flags := MsgFlag.more, data := [1] } true),
    (.first, .write { data := [2] } true), (.first, .flush),
    (.first, .write { flags := MsgFlag.more, data := [3] } true),
    (.first, .terminate true true), (.second, .deliver), (.second, .read), (.second, .read),
    (.second, .read)]

theorem whole_messages_are_delivered_at_goodbye :
    ∃ s, Reaches (step .first) Allowed (start fun _ => 5) s ∧ s.patient = true ∧
      .pipeTermAck ∈ s.pair.mailbox .first ∧
      ∃ before, s.before = some before ∧ s.returned = before.flatten.filter (!·.isCredential) ∧
        s.returned.map (·.data) = [[1], [2]] := by
  obtain ⟨s, reached, patient, answered, frames⟩ :=
    exists_reaches (step .first) Allowed (start fun _ => 5) goodbye
    (fun s => s.patient = true ∧ .pipeTermAck ∈ s.pair.mailbox .first ∧
      s.returned.map (·.data) = [[1], [2]]) (by decide +kernel)
  obtain ⟨before, at_first, all⟩ :=
    (whole_messages_are_delivered _ .first reached).2 patient answered
  exact ⟨s, reached, patient, answered, before, at_first, all, frames⟩

end Delivery

end Zmq
