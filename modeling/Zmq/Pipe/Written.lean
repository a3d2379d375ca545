import Zmq.Pipe.Calls
import Zmq.Pipe.Supply

/-! # What was written to the queue of a pipe

The frames that a pipe has put into the queue it writes to now, whether they were read or not.
A hiccup starts again with nothing.
-/

namespace Zmq

open Lib Function

namespace Upipe

variable {u u' : Upipe} {m : Msg}

theorem items_write (free : u.lockFree = true) (incomplete lock : Bool) :
    (u.write m incomplete lock).items = u.items ++ [m] := by
  obtain ⟨y, rfl⟩ := lockFree_iff.mp free
  rfl

end Upipe

namespace Pair

variable {s t : Pair} {e : End} {a : Action} {m : Msg} {k : Nat} {q : Upipe} {lock b : Bool}

def written (s : Pair) (e : End) : List Msg :=
  match (s.pipe e).outPipe with
  | none => []
  | some k => (s.queue e.peer k).elim [] Upipe.items

theorem written_eq (here : (s.pipe e).outPipe = some k) (found : s.queue e.peer k = some q) :
    s.written e = q.items := by
  simp [written, here, found]

theorem written_congr (here : (t.pipe e).outPipe = (s.pipe e).outPipe)
    (same : t.queue e.peer = s.queue e.peer) : t.written e = s.written e := by
  simp [written, here, same]

theorem Outcome.written_reader (sound : s.Sound) (after : t.Sound)
    (outcome : Outcome s e.peer a t) : t.written e = s.written e := by
  have same : t.pipe e = s.pipe e := by simpa using outcome.pipe_peer
  cases here : (s.pipe e).outPipe with
  | none => simp [written, same, here]
  | some k =>
    obtain ⟨q, found⟩ := after.outQueue (by rw [same, here])
    rw [written_eq (by rw [same, here]) found]
    rcases outcome.read_or_new found with ⟨p, before, read⟩ | ⟨-, new, -⟩
    · rw [read.items, written_eq here before]
    · -- the writer cannot know the new queue
      have le := ((sound.inv.chain e.peer).linked k (by simpa [handshake] using here)).1
      simp only [handshake] at le
      omega

theorem Outcome.written_aside (outcome : Outcome s e a t) (aside : a.aside = true)
    (calm : a = .deliver → ∀ k, (s.mailbox e).head? ≠ some (.hiccup k))
    (active : (t.pipe e).state = .active) : t.written e = s.written e := by
  rcases outcome.outbound aside calm with same | ⟨closed, -⟩
  · exact written_congr (outcome.outPipe calm active) same
  · exact absurd active closed

theorem Writing.written_eq (free : s.LockFree) (writing : Writing s e m true t) :
    t.written e = s.written e ++ [m] := by
  cases writing with
  | @written q k lock live state room here found =>
    have there : (((s.setQueue e.peer k (some (q.write m m.more lock))).setPipe e
        ((s.pipe e).countWritten m)).queue e.peer k) = some (q.write m m.more lock) := by simp
    rw [written_eq here found, written_eq (by simpa using here) there,
      Upipe.items_write (free.queue _ _ _ found)]

theorem Writing.accepted (writing : Writing s e m b t) (active : (t.pipe e).state = .active)
    (live : (t.pipe e).outActive = true) :
    b = true ∧ (s.pipe e).state = .active ∧ (s.pipe e).outActive = true := by
  cases writing with
  | refused closed => simp [active, live] at closed
  | full => simp at live
  | written lock open_ state => exact ⟨rfl, state, open_⟩

theorem Writing.of_checkWrite (writing : Writing s e m b t)
    (room : (s.checkWrite e).1 = true) : b = true := by
  obtain ⟨active, live, low⟩ := (checkWrite_fst s e).mp room
  cases writing with
  | refused closed => simp [active, live] at closed
  | full _ _ full => simp [low] at full
  | written => rfl

theorem Flushing.written (flushing : Flushing s e t) : t.written e = s.written e := by
  cases flushing with
  | skipped => rfl
  | @flushed q k silent here found =>
    rw [written_eq here found, ← q.items_flush]
    exact written_eq (by simpa using here) (by simp)

/-! ## Queues the writer has not heard of -/

def Unheard (s : Pair) (e : End) : Prop :=
  ∀ k q, s.queue e.peer k = some q → (s.pipe e).outPipe ≠ some k → q.items = []

theorem Unheard.attached (hwms : End → Int) : (attached hwms fun _ => false).Unheard e := by
  intro k q found _
  obtain rfl := new_of_attached found
  rfl

theorem written_attached (hwms : End → Int) : (attached hwms fun _ => false).written e = [] := by
  cases e <;> rfl

section

variable (unheard : s.Unheard e)
include unheard

theorem Unheard.reader (free : s.LockFree) (outcome : Outcome s e.peer a t) : t.Unheard e := by
  intro k q found elsewhere
  have same : t.pipe e = s.pipe e := by simpa using outcome.pipe_peer
  rw [same] at elsewhere
  rcases outcome.read_or_new found with ⟨p, before, read⟩ | ⟨-, -, rfl⟩
  · rw [read.items]
    exact unheard k p before elsewhere
  · rw [free.option]
    rfl

theorem Unheard.aside (outcome : Outcome s e a t) (aside : a.aside = true)
    (calm : a = .deliver → ∀ k, (s.mailbox e).head? ≠ some (.hiccup k))
    (active : (t.pipe e).state = .active) : t.Unheard e := by
  intro k q found elsewhere
  rcases outcome.outbound aside calm with same | ⟨closed, -⟩
  · rw [same] at found
    rw [outcome.outPipe calm active] at elsewhere
    exact unheard k q found elsewhere
  · exact absurd active closed

theorem Unheard.change {u : Upipe} (here : (s.pipe e).outPipe = some k)
    (out : (t.pipe e).outPipe = (s.pipe e).outPipe)
    (same : t.queue e.peer = update (s.queue e.peer) k (some u)) : t.Unheard e := by
  intro j q found elsewhere
  rw [out] at elsewhere
  have other : j ≠ k := by
    rintro rfl
    exact elsewhere here
  rw [same, update_of_ne other] at found
  exact unheard j q found elsewhere

theorem Unheard.write (writing : Writing s e m b t) : t.Unheard e := by
  cases writing with
  | refused => exact unheard
  | full => simpa [Unheard] using unheard
  | @written q k lock live state room here found =>
    exact unheard.change (u := q.write m m.more lock) here (by simp) (by simp)

theorem Unheard.flush (flushing : Flushing s e t) : t.Unheard e := by
  cases flushing with
  | skipped => exact unheard
  | @flushed q k silent here found =>
    exact unheard.change (u := q.flush.2) here (by simp) (by simp)

theorem Unheard.hiccuped (after : t.Sound) (head : (s.mailbox e).head? = some (.hiccup k))
    (outcome : Outcome s e .deliver t) : t.Unheard e ∧ t.written e = [] := by
  cases outcome with
  | deliver at_head receiving =>
    obtain rfl : _ = Command.hiccup k := by simpa [at_head] using head
    cases receiving with
    | @replaced u old _ here there =>
      have before (j : Nat) (q : Upipe)
          (found : update (s.queue e.peer) old none j = some q) : q.items = [] := by
        have other : j ≠ old := by
          rintro rfl
          simp at found
        rw [update_of_ne other] at found
        refine unheard j q found ?_
        simpa [show (s.pipe e).outPipe = some old from here] using Ne.symm other
      refine ⟨fun j q found _ => before j q (by simpa using found), ?_⟩
      obtain ⟨q, found⟩ := after.outQueue (e := e) (k := k) (by simp)
      rw [written_eq (by simp) found]
      exact before k q (by simpa using found)

end

/-! ## Messages of one frame -/

section Messages

variable {messages : List Msg}

section

variable (sound : s.Sound) (free : s.LockFree)
include sound free

theorem writeAll_sound (stays : (s.pipe e).deleted = false)
    (done : writeAll e lock messages s = .ok t) :
    t.Sound ∧ t.LockFree ∧ (t.pipe e).deleted = false ∧ (t.pipe e).state = (s.pipe e).state := by
  induction messages generalizing s with
  | nil =>
    cases done
    exact ⟨sound, free, stays, rfl⟩
  | cons m rest ih =>
    obtain ⟨⟨b, v⟩, ends, done⟩ := bind_ok.mp done
    have writing := sound.writing stays ends
    have outcome : Outcome s e (.write m true) v := .write writing
    obtain ⟨state, deleted⟩ := writing.state_eq
    rw [← state]
    exact ih (writing.sound sound) (free.outcome outcome) (deleted.trans stays) done

theorem writeAll_written (unheard : s.Unheard e) (stays : (s.pipe e).deleted = false)
    (done : writeAll e lock messages s = .ok t) (active : (t.pipe e).state = .active)
    (live : (t.pipe e).outActive = true) :
    (t.written e = s.written e ++ messages ∧ t.Unheard e) ∧
      (s.pipe e).state = .active ∧ (s.pipe e).outActive = true := by
  induction messages generalizing s with
  | nil =>
    cases done
    simpa using ⟨unheard, active, live⟩
  | cons m rest ih =>
    obtain ⟨⟨b, v⟩, ends, done⟩ := bind_ok.mp done
    have writing := sound.writing stays ends
    have outcome : Outcome s e (.write m true) v := .write writing
    obtain ⟨⟨whole, unheard'⟩, active', live'⟩ := ih (writing.sound sound)
      (free.outcome outcome) (unheard.write writing) (writing.state_eq.2.trans stays) done
    obtain ⟨rfl, before⟩ := writing.accepted active' live'
    refine ⟨⟨?_, unheard'⟩, before⟩
    rw [whole, writing.written_eq free, List.append_assoc]
    rfl

section

variable (stays : (s.pipe e).deleted = false) (done : s.sendAll e messages lock = .ok t)
include stays done

theorem sendAll_flushing : ∃ v, writeAll e lock messages s = .ok v ∧ Flushing v e t := by
  obtain ⟨v, written, ends⟩ := bind_ok.mp done
  exact ⟨v, written, (writeAll_sound sound free stays written).1.flushing ends⟩

theorem sendAll_sound :
    t.Sound ∧ t.LockFree ∧ (t.pipe e).deleted = false ∧ (t.pipe e).state = (s.pipe e).state := by
  obtain ⟨v, written, flushing⟩ := sendAll_flushing sound free stays done
  obtain ⟨sound', free', stays', state⟩ := writeAll_sound sound free stays written
  have outcome : Outcome v e .flush t := .flush flushing
  refine ⟨outcome.sound sound' stays', free'.outcome outcome,
    (outcome.deleted nofun).trans stays', ?_⟩
  rw [← state]
  cases flushing <;> simp

end

theorem sendAll_written (unheard : s.Unheard e) (stays : (s.pipe e).deleted = false)
    (done : s.sendAll e messages lock = .ok t) (active : (t.pipe e).state = .active)
    (live : (t.pipe e).outActive = true) : t.written e = s.written e ++ messages ∧ t.Unheard e := by
  obtain ⟨v, written, flushing⟩ := sendAll_flushing sound free stays done
  have same : (v.pipe e).state = .active ∧ (v.pipe e).outActive = true := by
    cases flushing with
    | skipped => exact ⟨active, live⟩
    | flushed => exact ⟨by simpa using active, by simpa using live⟩
  obtain ⟨⟨whole, unheard'⟩, -⟩ :=
    writeAll_written sound free unheard stays written same.1 same.2
  exact ⟨flushing.written.trans whole, unheard'.flush flushing⟩

end

end Messages

end Pair

end Zmq
