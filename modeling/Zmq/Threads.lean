import Zmq.Lib.Run
import Zmq.Upipe

/-! # The two threads of a queue

`ypipe_t` and `ypipe_conflate_t` under every interleaving of one writer and one reader.
-/

namespace Zmq

open Lib

/-! ## `ypipe_t`

Every pointer but `c` belongs to one of the threads, so that a step is an operation up to and with
its compare-and-swap. Only a `flush` whose swap fails has something left to do.
-/

/-- A `ypipe_t` with what its two threads have done. -/
structure Spsc (α : Type) where
  pipe : Ypipe α := .new
  /-- The swap of a `flush` has failed and `c` is not set yet. -/
  waking : Bool := false
  /-- The items of finished groups, and those of the group that is not. -/
  complete : List α := []
  incomplete : List α := []
  got : List α := []
  /-- `check_read` has returned false since `flush` did last. -/
  asleep : Bool := false

inductive SpscStep (α : Type) where
  | write (value : α) (incomplete : Bool)
  | unwrite
  | cas
  | set
  | checkRead
  | read

namespace Spsc

variable {α : Type}

variable (s : Spsc α)

/-- A failed swap changes nothing, and `c` stays null until the writer sets it. -/
def step : SpscStep α → Except Empty (Spsc α)
  | .write value incomplete =>
    let group := s.incomplete ++ [value]
    .ok { s with
      pipe := s.pipe.write value incomplete
      complete := if incomplete then s.complete else s.complete ++ group
      incomplete := if incomplete then group else [] }
  | .unwrite =>
    match s.pipe.unwrite with
    | none => .ok s
    | some (_, pipe) => .ok { s with pipe := pipe, incomplete := s.incomplete.dropLast }
  | .cas => .ok (if s.pipe.flush.1 then { s with pipe := s.pipe.flush.2 } else { s with waking := true })
  | .set => .ok { s with pipe := s.pipe.flush.2, waking := false, asleep := false }
  | .checkRead =>
    .ok { s with pipe := s.pipe.checkRead.2, asleep := s.asleep || !s.pipe.checkRead.1 }
  | .read =>
    .ok { s with
      pipe := s.pipe.read.2
      got := s.got ++ s.pipe.read.1.toList
      asleep := s.asleep || s.pipe.read.1.isNone }

def InTurn : SpscStep α → Prop
  | .write _ _ | .unwrite | .cas => s.waking = false
  | .set => s.waking = true
  | .checkRead | .read => True

instance (a : SpscStep α) : Decidable (s.InTurn a) := by
  cases a <;> dsimp only [InTurn] <;> infer_instance

def flushed : SpscStep α → Option Bool
  | .cas => if s.pipe.flush.1 then some true else none
  | .set => some false
  | _ => none

structure Inv (s : Spsc α) : Prop where
  items : s.pipe.items = s.complete ++ s.incomplete
  finished : s.pipe.f = s.complete.length
  got : s.got = s.pipe.items.take s.pipe.front
  asleep : s.asleep = true ↔ s.pipe.c = none
  waking : s.waking = true → s.pipe.w ≠ s.pipe.f ∧ s.pipe.c = none

variable {s t : Spsc α} {a : SpscStep α}

theorem Inv.step (inv : s.Inv) (turn : s.InTurn a) (taken : s.step a = .ok t) : t.Inv := by
  obtain ⟨items, finished, got, asleep, waking⟩ := inv
  have flushed := s.pipe.front_le_w
  have written := s.pipe.w_le_f
  have back := s.pipe.f_le_back
  cases a with
  | write value incomplete =>
    cases taken
    have idle : s.waking = false := turn
    have kept : (s.pipe.items ++ [value]).take s.pipe.front = s.pipe.items.take s.pipe.front :=
      List.take_append_of_le_length (by omega)
    cases incomplete with
    | false | true => constructor <;> simp_all [Nat.add_assoc]
  | unwrite =>
    rcases Nat.lt_or_eq_of_le back with inside | ended
    · obtain ⟨value, y, unwritten, shorter, front, w, f, c⟩ := Ypipe.unwrite_of_lt inside
      simp only [Spsc.step, unwritten] at taken
      cases taken
      have some_ : s.incomplete ≠ [] := by
        intro none_
        simp only [items, none_, List.append_nil] at inside
        omega
      have kept : y.items = s.complete ++ s.incomplete.dropLast := by
        rw [← List.dropLast_append_of_ne_nil some_, ← items, shorter, List.dropLast_concat]
      refine ⟨kept, f ▸ finished, ?_, c ▸ asleep, w ▸ f ▸ c ▸ waking⟩
      rw [shorter, List.take_append_of_le_length (by have := y.f_le_back; omega)] at got
      exact front ▸ got
    · simp only [Spsc.step, Ypipe.unwrite_of_eq ended] at taken
      cases taken
      exact ⟨items, finished, got, asleep, waking⟩
  | cas =>
    cases taken
    have idle : s.waking = false := turn
    have wakes := s.pipe.flush_false_iff
    split
    · constructor <;> simp_all [Ypipe.flush_c]
      grind
    · constructor <;> simp_all
  | set =>
    cases taken
    have unflushed := (waking turn).1
    constructor <;> simp_all [Ypipe.flush_c]
  | checkRead =>
    cases taken
    rcases Nat.lt_or_eq_of_le flushed with more | none_left
    · obtain ⟨found, -, awake⟩ := Ypipe.checkRead_of_lt more
      constructor <;> simp_all
    · obtain ⟨found, -, null⟩ := Ypipe.checkRead_of_eq none_left
      constructor <;> simp_all
  | read =>
    cases taken
    rcases Nat.lt_or_eq_of_le flushed with more | none_left
    · obtain ⟨value, front, awake⟩ := Ypipe.read_of_lt more
      refine ⟨by simpa, by simpa, ?_, by simpa [value, awake], by simpa [awake]⟩
      simp [value, front, got]
    · obtain ⟨value, front, null⟩ := Ypipe.read_of_eq none_left
      constructor <;> simp_all

theorem Inv.published (inv : s.Inv) : s.got ++ s.pipe.unread = s.complete.take s.pipe.w := by
  obtain ⟨items, finished, got, -, -⟩ := inv
  have := s.pipe.front_le_w
  have := s.pipe.w_le_f
  rw [got, ← Ypipe.take_front (List.append_nil _).symm, Ypipe.unread_length, items,
    List.take_append_of_le_length (by omega)]
  congr 1
  omega

/-- What has been read and what can be read are the first of the complete items, in order and once
    each. When everything complete is flushed and `check_read` finds nothing, all have been read.
    A `flush` returns false if and only if it publishes something and `check_read` has failed since
    the last one that did, and then everything complete can be read. `read` takes the next complete
    item if `check_read` finds one, and `unwrite` the last item of a group that is not finished. -/
theorem ypipe_passes_complete_items (reached : Reaches step InTurn ({} : Spsc α) s) :
    s.got ++ s.pipe.unread <+: s.complete ∧
      (s.pipe.w = s.pipe.f → s.pipe.checkRead.1 = false → s.got = s.complete) ∧
      (∀ a rc, s.InTurn a → s.flushed a = some rc →
        (rc = false ↔ s.pipe.w ≠ s.pipe.f ∧ s.asleep = true) ∧
        ∃ t, s.step a = .ok t ∧ t.got ++ t.pipe.unread = s.complete) ∧
      (s.pipe.read.1 = if s.pipe.checkRead.1 then s.complete[s.got.length]? else none) ∧
      (s.pipe.unwrite.map fun r => (r.1, r.2.items)) =
        s.incomplete.getLast?.map fun v => (v, s.complete ++ s.incomplete.dropLast) := by
  have invariant : s.Inv := reached.invariant ⟨rfl, rfl, rfl, by simp, by simp⟩
    fun _ _ _ inv turn taken => inv.step turn taken
  have published := invariant.published
  have flushes {t : Spsc α} (inv : t.Inv) (w : t.pipe.w = s.pipe.f) (same : t.complete = s.complete) :
      t.got ++ t.pipe.unread = s.complete := by
    rw [inv.published, w, same, invariant.finished, List.take_length]
  have next {a : SpscStep α} {t : Spsc α} (turn : s.InTurn a) (taken : s.step a = .ok t) : t.Inv :=
    invariant.step turn taken
  obtain ⟨items, finished, got, asleep, waking⟩ := invariant
  have back := s.pipe.f_le_back
  refine ⟨published ▸ List.take_prefix _ _, fun all nothing => ?_, fun a rc turn ends => ⟨?_, ?_⟩,
    ?_, ?_⟩
  · have read : s.pipe.front = s.pipe.w := by
      have := s.pipe.front_le_w
      simp only [Ypipe.checkRead_fst, decide_eq_false_iff_not] at nothing
      omega
    simpa [Ypipe.unread_of_eq read, all, finished] using published
  · have wakes := s.pipe.flush_false_iff
    cases a with
    | cas => grind [flushed]
    | set => grind [flushed, waking turn]
    | _ => cases ends
  · cases a with
    | cas =>
      have done : s.pipe.flush.1 = true := by
        by_contra failed
        simp [flushed, failed] at ends
      have taken : s.step .cas = .ok { s with pipe := s.pipe.flush.2 } := by simp [step, done]
      exact ⟨_, taken, flushes (next turn taken) (by simp) rfl⟩
    | set => exact ⟨_, rfl, flushes (next turn rfl) (by simp) rfl⟩
    | _ => cases ends
  · have length : s.got.length = s.pipe.front := by
      rw [got, List.length_take]
      have := s.pipe.front_le_w
      have := s.pipe.w_le_f
      omega
    rw [Ypipe.checkRead_fst, length]
    rcases Nat.lt_or_eq_of_le s.pipe.front_le_w with more | none_left
    · have inside : s.pipe.front < s.complete.length := by
        have := s.pipe.w_le_f
        omega
      rw [(Ypipe.read_of_lt more).1, if_pos (by simpa using more)]
      simp [items, List.getElem_append_left inside, List.getElem?_eq_getElem inside]
    · rw [(Ypipe.read_of_eq none_left).1, if_neg (by simp [none_left])]
  · rcases List.eq_nil_or_concat' s.incomplete with none_left | ⟨rest, v, split⟩
    · rw [Ypipe.unwrite_of_eq (by simp [items, none_left, finished]), none_left]
      rfl
    · obtain ⟨value, y, unwritten, shorter, -⟩ := Ypipe.unwrite_of_lt (y := s.pipe)
        (by simp [items, split, finished])
      rw [items, split, ← List.append_assoc] at shorter
      obtain ⟨kept, last⟩ := List.append_inj' shorter rfl
      cases last
      simp [unwritten, split, kept]

/-- The reader fails before and while a group of two is flushed, and is woken once. -/
theorem ypipe_passes_complete_items_of_group : ∃ s, Reaches step InTurn ({} : Spsc Nat) s ∧
    s.complete = [1, 2] ∧ s.got = [1, 2] ∧ s.flushed .cas = some true ∧
    s.got ++ s.pipe.unread <+: s.complete :=
  exists_run_and₃
    [.write 1 true, .checkRead, .write 2 false, .cas, .checkRead, .set, .read, .read, .write 3 true,
      .unwrite]
    (by decide +kernel) fun _ reached _ _ _ => (ypipe_passes_complete_items reached).1

end Spsc

/-! ## `ypipe_conflate_t`

The reader waits for the lock of `dbuffer_t` and holds it from one of its steps to the next. The
writer stores its value before it tries the lock. If it gets it, the reader can only wait until it
is free again, so that what the writer does under the lock is one step.
-/

/-- Where the reader is. `read` runs `check_read` first and takes the lock a second time if that
    found a value. -/
inductive ReaderAt where
  | idle
  | checking (reads : Bool)
  | probing
  | found
  | taking
  deriving Repr, DecidableEq

def ReaderAt.holdsLock : ReaderAt → Bool
  | .idle | .found => false
  | .checking _ | .probing | .taking => true

structure Conflation where
  queue : YpipeConflate := {}
  /-- The writer has stored a value and not tried the lock yet. -/
  stored : Bool := false
  reader : ReaderAt := .idle
  written : List Msg := []
  returned : List Msg := []
  closed : List Msg := []

inductive ConflationStep where
  | store (value : Msg)
  | tryLock
  | checkRead
  | probe
  | read
  /-- The reader finishes a section, or enters the second one of `read`. -/
  | proceed
  deriving Repr, DecidableEq

namespace Conflation

variable (s : Conflation)

def fresh : List Msg :=
  if s.queue.dbuffer.hasMsg then [s.queue.dbuffer.front] else []

def take : Conflation :=
  { s with
    queue.dbuffer := s.queue.dbuffer.read.2
    reader := .idle
    returned := s.returned ++ s.queue.dbuffer.read.1.toList }

def proceed : Conflation :=
  match s.reader with
  | .idle => s
  | .checking reads =>
    { s with
      queue := s.queue.checkRead.2
      reader := if s.queue.checkRead.1 && reads then .found else .idle }
  | .probing => { s with reader := .idle }
  | .found => { s with reader := .taking }
  | .taking => s.take

/-- One step of either thread. `msg_t::move` closes what it moves over. -/
def step : ConflationStep → Except Empty Conflation
  | .store value =>
    .ok { s with queue.dbuffer.back := value, stored := true, written := s.written ++ [value] }
  | .tryLock =>
    .ok { s with
      queue.dbuffer := s.queue.dbuffer.write s.queue.dbuffer.back (!s.reader.holdsLock)
      stored := false
      closed := s.closed ++ if s.reader.holdsLock then [] else s.fresh }
  | .checkRead => .ok { s with reader := .checking false }
  | .probe => .ok { s with reader := .probing }
  | .read => .ok { s with reader := .checking true }
  | .proceed => .ok s.proceed

def InTurn : ConflationStep → Prop
  | .store _ => s.stored = false
  | .tryLock => s.stored = true
  | .checkRead | .probe | .read => s.reader = .idle
  | .proceed => s.reader ≠ .idle

instance (a : ConflationStep) : Decidable (s.InTurn a) := by
  cases a <;> dsimp only [InTurn] <;> infer_instance

/-- The writer never finds the lock taken. -/
def Uncontended (a : ConflationStep) : Prop :=
  s.InTurn a ∧ (a = .tryLock → s.reader.holdsLock = false)
  deriving Decidable

/-- `published` are the values that went through the front buffer: each has been returned, closed,
    or is there, and the last of them is there or was the last to be returned. -/
structure Keeps (s : Conflation) (published : List Msg) : Prop where
  written : s.written = published ++ if s.stored then [s.queue.dbuffer.back] else []
  last : published.getLast? = (s.returned ++ s.fresh).getLast?
  account : published.Perm (s.returned ++ s.fresh ++ s.closed)

variable {s t : Conflation} {published : List Msg}

section

variable (keeps : s.Keeps published)
include keeps

theorem Keeps.of_reader (reader : ReaderAt) (awake : Bool) :
    Keeps { s with queue.readerAwake := awake, reader := reader } published :=
  { keeps with }

theorem Keeps.take : s.take.Keeps published := by
  have same : s.take.returned ++ s.take.fresh = s.returned ++ s.fresh := by
    cases here : s.queue.dbuffer.hasMsg with
    | false | true => simp [Conflation.take, fresh, Dbuffer.read, here]
  have back : s.take.queue.dbuffer.back = s.queue.dbuffer.back := by
    simp only [Conflation.take, Dbuffer.read]
    split <;> rfl
  exact ⟨back ▸ keeps.written, same ▸ keeps.last, same ▸ keeps.account⟩

theorem Keeps.proceed : s.proceed.Keeps published := by
  unfold Conflation.proceed
  split
  · exact keeps
  · unfold YpipeConflate.checkRead
    split <;> exact keeps.of_reader _ _
  · exact keeps.of_reader _ _
  · exact keeps.of_reader _ _
  · exact keeps.take

theorem Keeps.step {a : ConflationStep} (allowed : s.Uncontended a)
    (taken : s.step a = .ok t) : ∃ published, t.Keeps published := by
  obtain ⟨written, last, account⟩ := keeps
  obtain ⟨turn, free⟩ := allowed
  cases a with
  | store value =>
    cases taken
    have idle : s.stored = false := turn
    refine ⟨published, ?_, last, account⟩
    simpa [idle] using written
  | tryLock =>
    cases taken
    have waits : s.stored = true := turn
    refine ⟨published ++ [s.queue.dbuffer.back], ?_, ?_, ?_⟩
    · simpa [waits] using written
    · simp [fresh, Dbuffer.write, free rfl]
    · -- The value goes to the front buffer, and the one that was there is closed.
      refine (account.append_right _).trans ?_
      simp only [fresh, Dbuffer.write]
      grind
  | checkRead | probe | read =>
    cases taken
    exact ⟨published, written, last, account⟩
  | proceed =>
    cases taken
    exact ⟨published, Keeps.proceed ⟨written, last, account⟩⟩

end

/-- As long as the writer never finds the lock taken: once it has stopped and nothing is left to be
    read, the last value written was the last one read, and every value was returned or closed,
    exactly once. -/
theorem conflation_ends_with_last (reached : Reaches step Uncontended {} s)
    (stopped : s.stored = false) (drained : s.queue.checkRead.1 = false) :
    s.returned.getLast? = s.written.getLast? ∧ s.written.Perm (s.returned ++ s.closed) := by
  have keeps : ∃ published, s.Keeps published :=
    reached.invariant (P := fun s => ∃ published, s.Keeps published) ⟨[], rfl, rfl, .refl _⟩
      fun _ _ _ ⟨_, keeps⟩ allowed taken => keeps.step allowed taken
  obtain ⟨published, written, last, account⟩ := keeps
  have empty : s.fresh = [] := by
    unfold YpipeConflate.checkRead at drained
    split at drained
    · cases drained
    · simp [fresh, *]
  simp only [stopped, empty, Bool.false_eq_true, if_false, List.append_nil] at written last account
  exact ⟨by rw [written, last], written ▸ account⟩

theorem conflation_ends_with_last_of_two : ∃ s, Reaches step Uncontended {} s ∧
    s.written = [Msg.initSize [1], .initDelimiter] ∧ s.returned = [.initDelimiter] ∧
    s.returned.getLast? = s.written.getLast? ∧ s.written.Perm (s.returned ++ s.closed) := by
  obtain ⟨s, reached, stopped, drained, written, returned⟩ := exists_reaches step Uncontended {}
    [.store (.initSize [1]), .tryLock, .read, .store .initDelimiter, .proceed, .tryLock, .proceed,
      .proceed]
    (fun s => s.stored = false ∧ s.queue.checkRead.1 = false ∧
      s.written = [Msg.initSize [1], .initDelimiter] ∧ s.returned = [.initDelimiter])
    (by decide +kernel)
  exact ⟨s, reached, written, returned, conflation_ends_with_last reached stopped drained⟩

/-- The reader looks into the queue while two values are written. The first is lost from the back
    buffer, and the second, a delimiter, stays there. -/
theorem conflation_misses_delimiter : ∃ s, Reaches step InTurn {} s ∧
    s.stored = false ∧ s.queue.checkRead.1 = false ∧
    s.written = [Msg.initSize [1], .initDelimiter] ∧ s.returned = [] ∧ s.closed = [] ∧
    s.queue.dbuffer.back = .initDelimiter :=
  exists_reaches step InTurn {}
    [.checkRead, .store (.initSize [1]), .tryLock, .store .initDelimiter, .tryLock, .proceed]
    _ (by decide +kernel)

end Conflation

end Zmq
