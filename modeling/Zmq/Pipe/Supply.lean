import Zmq.Pipe.Stream

/-! # What is put into a pipe that may be hiccuped

The writer's view of a pipe again, for a reader that may renew the queue. Then the pipe has
several queues, one that is written to and later ones that the writer has not heard of, and
each holds whole messages of its own.
-/

namespace Zmq

open Lib Function

def Msg.single (m : Msg) : Bool := !m.more && !m.isDelimiter

namespace Pair

variable {s t v : Pair} {e : End} {a : Action} {offered wider : List (List Msg)}
  {begun messages begun' : List Msg} {m : Msg} {lock b : Bool} {k : Nat} {q : Upipe}

theorem Outcome.outPipe (outcome : Outcome s e a t)
    (calm : a = .deliver → ∀ k, (s.mailbox e).head? ≠ some (.hiccup k))
    (active : (t.pipe e).state = .active) : (t.pipe e).outPipe = (s.pipe e).outPipe := by
  cases outcome with
  | checked how | read how | terminate how => cases how <;> simp_all
  | write how | rollback how | flush how | hiccup how | sendDisconnectMsg how => cases how <;> simp
  | deliver at_head receiving =>
    cases receiving with
    | replaced => exact absurd (by rw [at_head]; rfl) (calm rfl _)
    | waits | answers | crosses => simp at active
    | readWoken | readIgnored | writeWoken | writeNoted | published | limited => simp [Pipe.setHwms]
    | leaves state | answersAndLeaves state => simp_all
  | _ => simp [Pipe.setHwms, Pipe.setHwmsBoost]

/-- `e` puts messages from the list `offered` into its pipe, in order and with all their frames,
    and has put the frames `begun` of a message that is not finished behind them. -/
structure Supplies (s : Pair) (e : End) (offered : List (List Msg)) (begun : List Msg) : Prop where
  sound : s.Sound
  free : s.LockFree
  queue : ∀ k q, s.queue e.peer k = some q → ∃ messages : List (List Msg),
    messages.Sublist offered ∧ q.Logs messages.flatten
      (if (s.pipe e).outPipe = some k then begun else []) ((s.pipe e).state = .active)

namespace Supplies

theorem attached (hwms : End → Int) : (attached hwms fun _ => false).Supplies e offered [] where
  sound := attached_sound hwms _
  free := attached_lockFree hwms
  queue k q found := by
    obtain rfl := new_of_attached found
    exact ⟨[], List.nil_sublist _, by rw [ite_self]; exact Upipe.logs_new⟩

section

variable (supplies : s.Supplies e offered begun)
include supplies

theorem flushed (handed : s.Handed e) (found : s.queue e.peer k = some q) :
    ∃ messages : List (List Msg), messages.Sublist offered ∧ q.flushed = messages.flatten := by
  obtain ⟨messages, sublist, logs⟩ := supplies.queue k q found
  exact ⟨messages, sublist, logs.flushed_eq (handed k q found)⟩

theorem mono (less : offered.Sublist wider) : s.Supplies e wider begun where
  sound := supplies.sound
  free := supplies.free
  queue k q found := by
    obtain ⟨messages, sublist, logs⟩ := supplies.queue k q found
    exact ⟨messages, sublist.trans less, logs⟩

theorem of_closed (closed : (s.pipe e).state ≠ .active) : s.Supplies e offered begun' where
  sound := supplies.sound
  free := supplies.free
  queue k q found := by
    obtain ⟨messages, sublist, logs⟩ := supplies.queue k q found
    exact ⟨messages, sublist, logs.of_dead closed⟩

theorem reader (can : s.CanAct (e.peer, a))
    (outcome : Outcome s e.peer a t) : t.Supplies e offered begun where
  sound := outcome.sound supplies.sound can
  free := supplies.free.outcome outcome
  queue k q found := by
    have same : t.pipe e = s.pipe e := by simpa using outcome.pipe_peer
    rw [same]
    rcases outcome.read_or_new found with ⟨p, here, read⟩ | ⟨-, rfl, rfl⟩
    · obtain ⟨messages, sublist, logs⟩ := supplies.queue k p here
      exact ⟨messages, sublist, logs.read read⟩
    · -- the writer cannot know the new queue
      have unknown : (s.pipe e).outPipe ≠ some ((s.pipe e.peer).inPipe + 1) := by
        intro known
        have le := ((supplies.sound.inv.chain e.peer).linked _ (by simpa [handshake] using known)).1
        simp only [handshake] at le
        omega
      rw [if_neg unknown, supplies.free.option]
      exact ⟨[], List.nil_sublist _, Upipe.logs_new⟩

theorem writer (can : s.CanAct (e, a)) (outcome : Outcome s e a t) (aside : a.aside = true)
    (calm : a = .deliver → ∀ k, (s.mailbox e).head? ≠ some (.hiccup k)) :
    t.Supplies e offered begun := by
  refine ⟨outcome.sound supplies.sound can, supplies.free.outcome outcome, fun j q found => ?_⟩
  rcases outcome.outbound aside calm with same | ⟨closed, k, u, u', here, closes, same⟩
  · rw [same] at found
    obtain ⟨messages, sublist, logs⟩ := supplies.queue j q found
    by_cases active : (t.pipe e).state = .active
    · rw [outcome.outPipe calm active]
      exact ⟨messages, sublist, logs.mono outcome.active⟩
    · exact ⟨messages, sublist, logs.of_dead active⟩
  · rw [same] at found
    by_cases there : j = k
    · subst there
      obtain rfl : u' = q := by simpa using found
      obtain ⟨messages, sublist, logs⟩ := supplies.queue j u here
      have logs' : u'.Logs messages.flatten [] False := logs.closes closes
      exact ⟨messages, sublist, logs'.of_dead closed⟩
    · rw [update_of_ne there] at found
      obtain ⟨messages, sublist, logs⟩ := supplies.queue j q found
      exact ⟨messages, sublist, logs.of_dead closed⟩

theorem hiccuped (can : s.CanAct (e, .deliver)) (head : (s.mailbox e).head? = some (.hiccup k))
    (outcome : Outcome s e .deliver t) : t.Supplies e offered [] where
  sound := outcome.sound supplies.sound can
  free := supplies.free.outcome outcome
  queue j q found := by
    cases outcome with
    | deliver at_head receiving =>
      obtain rfl : _ = Command.hiccup k := by simpa [at_head] using head
      cases receiving with
      | @replaced u old _ here there =>
        simp only [setPipe_queue, setQueue_queue] at found
        have other : j ≠ old := by
          rintro rfl
          simp at found
        rw [update_of_ne other] at found
        obtain ⟨messages, sublist, logs⟩ := supplies.queue j q found
        have before : (s.pipe e).outPipe = some old := here
        rw [before, if_neg (by simpa using Ne.symm other)] at logs
        exact ⟨messages, sublist, by simpa using logs⟩

theorem change (sound : t.Sound) (free : t.LockFree) {u : Upipe}
    (here : (s.pipe e).outPipe = some k) (there : s.queue e.peer k = some q)
    (less : offered.Sublist wider) (out : (t.pipe e).outPipe = (s.pipe e).outPipe)
    (state : (t.pipe e).state = (s.pipe e).state)
    (same : t.queue e.peer = update (s.queue e.peer) k (some u))
    (logs : ∀ messages : List (List Msg), messages.Sublist offered →
      q.Logs messages.flatten begun ((s.pipe e).state = .active) →
      ∃ messages' : List (List Msg), messages'.Sublist wider ∧
        u.Logs messages'.flatten begun' ((s.pipe e).state = .active)) :
    t.Supplies e wider begun' := by
  refine ⟨sound, free, fun j p found => ?_⟩
  rw [same] at found
  rw [out, state]
  by_cases equal : j = k
  · subst equal
    obtain rfl : u = p := by simpa using found
    obtain ⟨messages, sublist, before⟩ := supplies.queue j q there
    rw [if_pos here] at before ⊢
    exact logs messages sublist before
  · rw [update_of_ne equal] at found
    obtain ⟨messages, sublist, before⟩ := supplies.queue j p found
    have elsewhere : (s.pipe e).outPipe ≠ some j := by
      rw [here]
      simpa using Ne.symm equal
    rw [if_neg elsewhere] at before ⊢
    exact ⟨messages, sublist.trans less, before⟩

section

variable (stays : (s.pipe e).deleted = false)
include stays

theorem refused (writing : Writing s e m false t) : t.Supplies e offered begun := by
  have outcome : Outcome s e (.write m true) t := .write writing
  refine ⟨outcome.sound supplies.sound stays, supplies.free.outcome outcome, ?_⟩
  cases writing with
  | refused => exact supplies.queue
  | full => simpa using supplies.queue

theorem more (writing : Writing s e m true t) (more : m.more = true) :
    t.Supplies e offered (begun ++ [m]) := by
  have outcome : Outcome s e (.write m true) t := .write writing
  have sound := outcome.sound supplies.sound stays
  have free := supplies.free.outcome outcome
  cases writing with
  | @written q k lock live state room here found =>
    refine supplies.change (u := q.write m m.more lock) sound free here found (.refl _)
      (by simp) (by simp) (by simp) fun messages sublist logs => ⟨messages, sublist, ?_⟩
    rw [more]
    exact (logs.mono fun _ => state).more lock

theorem last (writing : Writing s e m true t) (last : m.more = false)
    (data : ∀ k ∈ begun ++ [m], k.isDelimiter = false) :
    t.Supplies e (offered ++ [begun ++ [m]]) [] := by
  have outcome : Outcome s e (.write m true) t := .write writing
  have sound := outcome.sound supplies.sound stays
  have free := supplies.free.outcome outcome
  cases writing with
  | @written q k lock live state room here found =>
    refine supplies.change (u := q.write m m.more lock) sound free here found
      (List.sublist_append_left _ _) (by simp) (by simp) (by simp)
      fun messages sublist logs => ⟨messages ++ [begun ++ [m]], ?_, ?_⟩
    · exact sublist.append (.refl _)
    · rw [last]
      have finished : Upipe.Logs _ [] ((s.pipe e).state = .active) _ :=
        (logs.mono fun _ => state).finish (m := m) lock
      rw [List.filter_eq_self.mpr fun k member => by simp [data k member]] at finished
      simpa using finished

theorem flush (flushing : Flushing s e t) : t.Supplies e offered begun := by
  have outcome : Outcome s e .flush t := .flush flushing
  have sound := outcome.sound supplies.sound stays
  have free := supplies.free.outcome outcome
  cases flushing with
  | skipped => exact supplies
  | @flushed q k silent here found =>
    exact supplies.change (u := q.flush.2) sound free here found (.refl _) (by simp) (by simp)
      (by simp) fun messages sublist logs => ⟨messages, sublist, logs.flush⟩

end

end

end Supplies

/-! ## Messages of one frame -/

/-- Put some messages into the pipe, as `xsub_t` does with its subscriptions: what is refused is
    dropped. -/
def writeAll (e : End) (tryLock : Bool) : List Msg → Pair → Except Fault Pair
  | [], s => .ok s
  | m :: rest, s => do
      let (_, s) ← s.write e m tryLock
      writeAll e tryLock rest s

def sendAll (s : Pair) (e : End) (messages : List Msg) (tryLock : Bool) : Except Fault Pair := do
  let s ← writeAll e tryLock messages s
  s.flush e

theorem Outcome.closed {delay : Bool} (outcome : Outcome s e (.terminate delay lock) t) :
    (t.pipe e).state ≠ .active := by
  cases outcome with
  | terminate terminating =>
    cases terminating with
    | already state => rcases state with state | state | state <;> simp [state]
    | delayed _ state => simp [state]
    | _ => simp

theorem Writing.state_eq (writing : Writing s e m b t) :
    (t.pipe e).state = (s.pipe e).state ∧ (t.pipe e).deleted = (s.pipe e).deleted := by
  cases writing <;> simp

theorem Supplies.single (supplies : s.Supplies e offered []) (stays : (s.pipe e).deleted = false)
    (writing : Writing s e m b t) (single : m.single = true) :
    t.Supplies e (offered ++ [[m]]) [] := by
  obtain ⟨last, data⟩ : m.more = false ∧ m.isDelimiter = false := by
    simpa [Msg.single] using single
  cases b with
  | true => exact supplies.last stays writing last (by simpa using data)
  | false => exact (supplies.refused stays writing).mono (List.sublist_append_left _ _)

theorem Supplies.writeAll (supplies : s.Supplies e offered []) (handed : s.HandedElsewhere e)
    (stays : (s.pipe e).deleted = false) (single : ∀ m ∈ messages, m.single = true)
    (done : writeAll e lock messages s = .ok t) :
    t.Supplies e (offered ++ messages.map ([·])) [] ∧ t.HandedElsewhere e ∧
      (t.pipe e).state = (s.pipe e).state ∧ (t.pipe e).deleted = false := by
  induction messages generalizing s offered with
  | nil =>
    cases done
    simpa using ⟨supplies, handed, stays⟩
  | cons m rest ih =>
    obtain ⟨⟨b, v⟩, ends, done⟩ := bind_ok.mp done
    have writing := supplies.sound.writing stays ends
    obtain ⟨state, deleted⟩ := writing.state_eq
    have next := ih (supplies.single stays writing (single m List.mem_cons_self))
      (handed.write writing) (deleted.trans stays)
      (fun k member => single k (List.mem_cons_of_mem m member)) done
    rw [state] at next
    simpa using next

theorem writeAll_closed (closed : (s.pipe e).state ≠ .active)
    (done : writeAll e lock messages s = .ok t) : t = s := by
  induction messages with
  | nil => exact (Except.ok.inj done).symm
  | cons m rest ih =>
    obtain ⟨⟨b, v⟩, ends, done⟩ := bind_ok.mp done
    have shut : (!(s.pipe e).outActive || (s.pipe e).state != .active) = true := by
      simp [closed]
    obtain ⟨rfl, rfl⟩ : false = b ∧ s = v := by
      simpa [Pair.write, checkWrite, shut] using ends
    exact ih done

theorem Supplies.sendAll (supplies : s.Supplies e offered []) (handed : s.Handed e)
    (stays : (s.pipe e).deleted = false) (single : ∀ m ∈ messages, m.single = true)
    (done : s.sendAll e messages lock = .ok t) :
    t.Supplies e (offered ++ messages.map ([·])) [] ∧ t.Handed e ∧
      (t.pipe e).deleted = false := by
  obtain ⟨v, written, ends⟩ := bind_ok.mp done
  obtain ⟨supplies', elsewhere, state, stays'⟩ :=
    supplies.writeAll handed.elsewhere stays single written
  have flushing := supplies'.sound.flushing ends
  have outcome : Outcome v e .flush t := .flush flushing
  refine ⟨supplies'.flush stays' flushing, ?_, (outcome.deleted nofun).trans stays'⟩
  by_cases active : (s.pipe e).state = .active
  · have active' : (v.pipe e).state = .active := state.trans active
    obtain ⟨k, q, out, -⟩ := supplies'.sound.outPipe
      (silent_of_state stays' (by simp [*]))
    exact elsewhere.flush active' (by simp [out]) flushing
  · obtain rfl := writeAll_closed active written
    exact handed.flush flushing

end Pair

end Zmq
