import Zmq.Pipe.Delimiter
import Zmq.Pipe.Stream

/-! # Whole messages

A queue hands over finished messages only, and a delimiter comes after a finished message.
So the reader that took a frame with the MORE flag finds the next one there, as long as its
end of the pipe takes messages at all. Credentials are skipped by the reader: they must
neither cut a message in two nor be handed over alone.
-/

namespace Zmq

open Lib

namespace Upipe

def Follows (x y : Msg) : Prop :=
  (x.more = true → y.isData = true) ∧ (x.isCredential = true → y.isDelimiter = false)

def finished : Upipe → List Msg
  | .normal y => y.items.take y.f
  | .conflate _ => []

def begun : Upipe → List Msg
  | .normal y => y.items.drop y.f
  | .conflate _ => []

def endsWith (frames : List Msg) (p : Msg → Bool) : Bool := frames.getLast?.all p

theorem endsWith_append (frames : List Msg) (m : Msg) (p : Msg → Bool) :
    endsWith (frames ++ [m]) p = p m := by
  simp [endsWith]

theorem endsWith_of_mem {frames : List Msg} {m : Msg} {p : Msg → Bool}
    (ends : endsWith frames p = true) (last : frames.getLast? = some m) : p m = true := by
  simpa [endsWith, last] using ends

theorem probe_checkRead {y : Ypipe Msg} {fn : Msg → Bool} (some_left : y.front < y.w) :
    (Upipe.normal y).checkRead.2.probe fn =
      some (fn (y.items.get ⟨y.front, Ypipe.lt_length some_left⟩)) := by
  have left : y.checkRead.2.front < y.checkRead.2.w := by simpa using some_left
  simp [checkRead, probe, Ypipe.probe, (Ypipe.checkRead_of_lt left).1,
    List.getElem?_eq_getElem (Ypipe.lt_length some_left)]

/-- Finished messages are whole, and what was handed over can be read to its end. -/
inductive Whole : Upipe → Prop where
  | normal {y : Ypipe Msg} : y.items.IsChain Follows →
      endsWith (y.items.take y.f) (!·.more) = true →
      endsWith (y.items.take y.w) (fun m => !m.more && !m.isCredential) = true → Whole (.normal y)

variable {u u' : Upipe} {m : Msg} {y : Ypipe Msg}

namespace Whole

theorem new : (Upipe.new false).Whole := .normal .nil rfl rfl

theorem same {y' : Ypipe Msg} (whole : (Upipe.normal y).Whole) (items : y'.items = y.items)
    (w : y'.w = y.w) (f : y'.f = y.f) : (Upipe.normal y').Whole := by
  cases whole with
  | normal chain done handed =>
    exact .normal (by rwa [items]) (by rwa [items, f]) (by rwa [items, w])

section

variable (whole : u.Whole)
include whole

theorem read (read : u.Read u') : u'.Whole := by
  obtain ⟨y, y', rfl, rfl, items, w, f⟩ | ⟨p, p', rfl, rfl⟩ := read.writer
  · exact whole.same items w f
  · cases whole

theorem cut (cut : u.Cut u') : u'.Whole := by
  cases cut with
  | conflate => exact whole
  | @normal y y' items front w f c =>
    cases whole with
    | normal chain done handed =>
      have := y.w_le_f
      refine .normal (by rw [items]; exact chain.take _) ?_ ?_
      · rwa [items, f, List.take_take, Nat.min_self]
      · rwa [items, w, List.take_take, Nat.min_eq_left this]

theorem flush (ends : endsWith u.finished (!·.isCredential) = true) : u.flush.2.Whole := by
  cases whole with
  | @normal y chain done handed =>
    refine .normal (by simpa using chain) (by simpa using done) ?_
    simp only [Ypipe.flush_items, Ypipe.flush_w]
    simp only [finished, endsWith] at ends done ⊢
    cases last : (y.items.take y.f).getLast? with
    | none => rfl
    | some m => simp_all

theorem append {incomplete : Bool} (lock : Bool)
    (follows : ∀ x ∈ u.items.getLast?, Follows x m) (ends : incomplete = false → m.more = false) :
    (u.write m incomplete lock).Whole := by
  cases whole with
  | @normal y chain done handed =>
    have := y.w_le_f
    have := y.f_le_back
    refine .normal ?_ ?_ ?_
    · rw [Ypipe.write_items]
      exact chain.append (.singleton m) (by simpa [items] using follows)
    · rw [Ypipe.write_items, Ypipe.write_f]
      split
      · rwa [List.take_append_of_le_length (by omega)]
      · rename_i complete
        rw [List.take_of_length_le (by simp), endsWith_append]
        simpa using ends (by simpa using complete)
    · rw [Ypipe.write_items, Ypipe.write_w, List.take_append_of_le_length (by omega)]
      exact handed

theorem write (lock : Bool) (data : m.isDelimiter = false)
    (alone : m.isCredential = true → u.begun = []) : (u.write m m.more lock).Whole := by
  refine whole.append lock (fun x last => ⟨fun more => ?_, fun _ => data⟩) id
  cases credential : m.isCredential with
  | false => simp [Msg.isData, data, credential]
  | true =>
    -- nothing is begun, so the frame before it ends a message
    cases whole with
    | @normal y chain done handed =>
      have none_begun : y.items.drop y.f = [] := alone credential
      have all : y.items.take y.f = y.items := by
        simpa [none_begun] using List.take_append_drop y.f y.items
      rw [all] at done
      have := endsWith_of_mem done last
      simp [more] at this

theorem finish (cut : u.Cut u') (lock : Bool) (single : m.more = false)
    (plain : m.isCredential = false)
    (ends : m.isDelimiter = true → endsWith u.finished (!·.isCredential) = true) :
    (u'.write m false lock).flush.2.Whole := by
  have short : u'.items = u.finished := by
    cases cut with
    | normal items => exact items
    | conflate => cases whole
  have after : (u'.write m false lock).Whole := by
    refine (whole.cut cut).append lock (fun x last => ⟨fun more => ?_, fun credential => ?_⟩)
      fun _ => single
    · cases whole with
      | normal chain done =>
        rw [short] at last
        have := endsWith_of_mem done last
        simp [more] at this
    · by_contra delimiter
      rw [short] at last
      have := endsWith_of_mem (ends (by simpa using delimiter)) last
      simp [credential] at this
  refine after.flush ?_
  cases whole.cut cut with
  | @normal y => simp [finished, Upipe.write, List.take_of_length_le, endsWith, plain]

end

theorem reads {rest : List Msg} (whole : (Upipe.normal y).Whole) (left : y.unread = m :: rest)
    (data : m.isDelimiter = false) :
    ¬ (Upipe.normal y).Dry u' ∧ ∀ k, (Upipe.normal y).Takes k u' → k.isDelimiter = false := by
  cases whole with
  | normal chain done handed =>
    constructor
    · rintro ⟨items, w, f, front, c, creds⟩
      have some_left : y.front < (y.items.take y.w).length := by
        have := congrArg List.length left
        simp only [Ypipe.unread, List.length_drop, List.length_cons] at this
        omega
      obtain ⟨k, last⟩ : ∃ k, y.unread.getLast? = some k := by
        simp [left, List.getLast?_cons]
      have credential := creds k (List.mem_of_getLast? last)
      rw [Ypipe.unread, List.getLast?_drop, if_neg (by omega)] at last
      have := endsWith_of_mem handed last
      simp [credential] at this
    · rintro k ⟨skipped, items, w, f, c, creds, split⟩
      rcases List.eq_nil_or_concat skipped with rfl | ⟨before, x, rfl⟩
      · rw [List.nil_append, left] at split
        obtain ⟨rfl, -⟩ := List.cons.inj split
        exact data
      · have all : y.unread.IsChain Follows := (chain.take _).drop _
        rw [split, List.concat_eq_append, List.append_assoc] at all
        have follows : Follows x k := (List.isChain_append_cons_cons.mp all).2.1
        exact follows.2 (creds x (by simp))

theorem next {got : List Msg} (whole : (Upipe.normal y).Whole)
    (taken : (Upipe.normal y).taken = got ++ [m]) (more : m.more = true) :
    ∃ k rest, y.unread = k :: rest ∧ k.isDelimiter = false := by
  cases whole with
  | normal chain done handed =>
    obtain ⟨left, right, split, -, tail⟩ := List.filter_eq_append_iff.mp taken
    obtain ⟨before, after, rfl, -, data, none_after⟩ := List.filter_eq_cons_iff.mp tail
    have parts : y.items.take y.front = (left ++ before) ++ m :: after := by
      rw [split, List.append_assoc]
    -- what stands after `m` is data, and no data was taken after it
    obtain rfl : after = [] := by
      cases after with
      | nil => rfl
      | cons k rest =>
        have taken := chain.take y.front
        rw [parts] at taken
        have follows := (List.isChain_append_cons_cons.mp taken).2.1
        rw [List.filter_eq_nil_iff] at none_after
        exact absurd (follows.1 more) (none_after k (by simp))
    have last : (y.items.take y.front).getLast? = some m := by simp [parts]
    have := y.front_le_w
    have some_left : y.front < y.w := by
      by_contra none_left
      rw [show y.front = y.w by omega] at last
      have := endsWith_of_mem handed last
      simp [more] at this
    refine ⟨_, _, Ypipe.unread_of_lt some_left, ?_⟩
    have all := chain
    rw [← List.take_append_drop y.front y.items] at all
    have follows := (List.isChain_append.mp all).2.2 m last
      (y.items.get ⟨y.front, Ypipe.lt_length some_left⟩)
      (by simp [List.getElem?_eq_getElem (Ypipe.lt_length some_left)])
    have plain := follows.1 more
    simp only [Msg.isData, Bool.and_eq_true, Bool.not_eq_true'] at plain
    exact plain.1

end Whole

end Upipe

namespace Pair

variable {s t : Pair} {e : End} {a : Action} {m : Msg}

/-! ## The writer -/

def outQueue (s : Pair) (e : End) : Upipe :=
  ((s.pipe e).outPipe.bind (s.queue e.peer)).getD (.new false)

theorem outQueue_eq {k : Nat} {q : Upipe} (here : (s.pipe e).outPipe = some k)
    (found : s.queue e.peer k = some q) : s.outQueue e = q := by
  simp [outQueue, here, found]

/-- Nobody writes a delimiter but the pipe. A credential is a message of its own, and it is
    handed over together with the next message. -/
def Orderly (s : Pair) (e : End) : Action → Prop
  | .write m _ => m.isDelimiter = false ∧
      (m.isCredential = true → m.more = false ∧ (s.outQueue e).begun = [])
  | .flush | .terminate .. => Upipe.endsWith (s.outQueue e).finished (!·.isCredential) = true
  | _ => True

instance (s : Pair) (e : End) : DecidablePred (s.Orderly e) := fun a => by
  cases a <;> dsimp only [Orderly] <;> infer_instance

/-- Every queue `e` reads hands over whole messages, and will after a disconnect message. -/
structure Whole (s : Pair) (e : End) : Prop where
  queue : ∀ k q, s.queue e k = some q → q.Whole
  parting : s.Parting e.peer

namespace Whole

theorem attached (hwms : End → Int) : (attached hwms fun _ => false).Whole e where
  queue k q found := by
    obtain rfl := new_of_attached found
    exact .new
  parting := ⟨[], rfl⟩

theorem reader (whole : s.Whole e) (outcome : Outcome s e a t) (stays : a ≠ .hiccup) :
    t.Whole e where
  queue := outcome.queues_reader stays (fun _ _ holds read => holds.read read) whole.queue
  parting := outcome.parting whole.parting

theorem change (whole : s.Whole e) {k : Nat} {u u' : Upipe} (here : s.queue e k = some u)
    (changed : u.Whole → u'.Whole)
    (same : t.queue e = Function.update (s.queue e) k (some u')) :
    ∀ j q, t.queue e j = some q → q.Whole := by
  intro j q found
  rw [same] at found
  exact all_update whole.queue (changed (whole.queue k u here)) found

section

variable (whole : s.Whole e.peer) (outcome : Outcome s e a t)
include whole outcome

theorem writer_queue (orderly : s.Orderly e a) : ∀ k q, t.queue e.peer k = some q → q.Whole := by
  have reading {r : Option Msg} (reading : Reading s e r t) :
      ∀ k q, t.queue e.peer k = some q → q.Whole := by
    cases reading with
    | closed | dry | accepted | delimiter => simpa using whole.queue
    | answered _ _ _ _ _ _ found cut => exact whole.change found (·.cut cut) (by simp)
  cases outcome with
  | checked r | read r => exact reading r
  | write writing =>
    cases writing with
    | refused | full => simpa using whole.queue
    | written lock _ _ _ here found =>
      obtain ⟨data, alone⟩ := orderly
      rw [outQueue_eq here found] at alone
      exact whole.change found (·.write lock data fun is => (alone is).2) (by simp)
  | rollback rolling =>
    cases rolling with
    | skipped => exact whole.queue
    | cut _ found cut => exact whole.change found (·.cut cut) (by simp)
  | flush flushing =>
    cases flushing with
    | skipped => exact whole.queue
    | flushed _ here found =>
      have ends : Upipe.endsWith (s.outQueue e).finished (!·.isCredential) = true := orderly
      rw [outQueue_eq here found] at ends
      exact whole.change found (·.flush ends) (by simp)
  | terminate terminating =>
    have ends : Upipe.endsWith (s.outQueue e).finished (!·.isCredential) = true := orderly
    cases terminating with
    | already => simpa using whole.queue
    | asked lock _ here found cut | delayed lock _ here found cut =>
      rw [outQueue_eq here found] at ends
      exact whole.change found (·.finish (m := .initDelimiter) cut lock rfl rfl fun _ => ends)
        (by simp)
    | answered _ _ found cut => exact whole.change found (·.cut cut) (by simp)
  | sendDisconnectMsg disconnecting =>
    cases disconnecting with
    | skipped => exact whole.queue
    | sent lock _ found cut =>
      have parting := whole.parting
      rw [End.peer_peer] at parting
      obtain ⟨data, plain, single⟩ := parting.plain
      exact whole.change found (·.finish cut lock single plain fun last => by simp [data] at last)
        (by simp)
  | hiccup hiccuping => cases hiccuping <;> simpa using whole.queue
  | deliver at_head receiving =>
    cases receiving with
    | replaced =>
      intro k q found
      exact whole.queue k q (found_of_free (by simpa using found))
    | _ => simpa using whole.queue
  | _ => simpa using whole.queue

theorem writer (orderly : s.Orderly e a) : t.Whole e.peer where
  queue := whole.writer_queue outcome orderly
  parting := outcome.parting whole.parting

end

end Whole

/-! ## The reader -/

/-- What the owner of an end may do without closing it for messages. A `terminate` that
    waits for the delimiter anyway is no harm, nor is a peer that terminates with a delay. -/
def Attentive (s : Pair) (e : End) : Action → Prop
  | .terminate delay _ => (s.pipe e).state = .waitingForDelimiter ∧ delay = true
  | .deliver => (s.mailbox e).head? = some .pipeTerm → (s.pipe e).delay = true
  | _ => True

instance (s : Pair) (e : End) : DecidablePred (s.Attentive e) := fun a => by
  cases a <;> dsimp only [Attentive] <;> infer_instance

theorem Outcome.listens_on (outcome : Outcome s e a t) (other : a ≠ .read) (another : a ≠ .checkRead)
    (attentive : s.Attentive e a) (listens : (s.pipe e).Listens) : (t.pipe e).Listens := by
  cases outcome with
  | peeked | checked => exact absurd rfl another
  | read => exact absurd rfl other
  | write how | rollback how | flush how | hiccup how | sendDisconnectMsg how =>
    cases how <;> simpa [Pipe.Listens] using listens
  | terminate terminating =>
    obtain ⟨state, delay⟩ := attentive
    cases terminating with
    | already was | asked _ was => simp [state] at was
    | delayed => simpa [Pipe.Listens] using listens
    | answered => cases delay
  | deliver at_head receiving =>
    cases receiving with
    | waits => exact .inr (by simp)
    | answers was =>
      have delay : (s.pipe e).delay = true := attentive (by simp [at_head])
      rcases was with ⟨-, hasty⟩ | state
      · simp [delay] at hasty
      · rcases listens with here | here <;> simp [here] at state
    | crosses how | answersAndLeaves how | leaves how =>
      rcases listens with here | here <;> simp [here] at how
    | _ =>
      simpa [Pipe.Listens, Pipe.setHwms] using listens
  | _ => simpa [Pipe.Listens, Pipe.setHwms, Pipe.setHwmsBoost] using listens

/-- A reader that takes messages and finds something other than a delimiter. -/
def Waiting (s : Pair) (e : End) : Prop :=
  (s.pipe e).readable = true ∧ ∃ y m rest, s.queue e (s.pipe e).inPipe = some (.normal y) ∧
    y.unread = m :: rest ∧ m.isDelimiter = false

theorem Waiting.reads {r : Option Msg} (waiting : s.Waiting e) (whole : s.Whole e)
    (reading : Reading s e r t) : ∃ m, r = some m := by
  obtain ⟨readable, y, m, rest, here, left, data⟩ := waiting
  have queue := whole.queue _ _ here
  cases reading with
  | closed shut => simp [readable] at shut
  | dry _ found dry =>
    rw [here] at found
    cases found
    exact absurd dry (queue.reads left data).1
  | accepted => exact ⟨_, rfl⟩
  | delimiter _ found takes last | answered _ found takes last =>
    rw [here] at found
    cases found
    have := (queue.reads left data).2 _ takes
    simp [last] at this

theorem Waiting.of_midway {got : List Msg} (whole : s.Whole e) (consumes : s.Consumes e (got ++ [m]))
    (stays : (s.pipe e).deleted = false) (readable : (s.pipe e).readable = true)
    (more : m.more = true) : s.Waiting e := by
  obtain ⟨q, here⟩ := consumes.sound.inQueue stays
  obtain ⟨y, rfl⟩ := consumes.free.normal here
  obtain ⟨k, rest, left, data⟩ := (whole.queue _ _ here).next (consumes.queue _ _ here) more
  exact ⟨readable, y, k, rest, here, left, data⟩

theorem Waiting.of_checkRead (free : s.LockFree) (done : s.checkRead e = .ok (true, t)) :
    t.Waiting e := by
  unfold checkRead at done
  split at done
  · rename_i readable
    obtain ⟨q, here, done⟩ := bind_ok.mp done
    have here : s.queue e (s.pipe e).inPipe = some q := by
      unfold deref at here
      split at here
      · cases here
        assumption
      · cases here
    obtain ⟨y, rfl⟩ := free.normal here
    cases ready : (Upipe.normal y).checkRead.1 with
    | false => simp [ready] at done
    | true =>
      have some_left : y.front < y.w := by
        simpa [Upipe.checkRead, Ypipe.checkRead_fst] using ready
      rw [ready, if_pos rfl, Upipe.probe_checkRead some_left] at done
      cases last : (y.items.get ⟨y.front, Ypipe.lt_length some_left⟩).isDelimiter with
      | true =>
        simp only [last] at done
        split at done
        · obtain ⟨_, _, ⟨⟩⟩ := bind_ok.mp done
        · cases done
      | false =>
        simp only [last, Except.ok.injEq, Prod.mk.injEq, true_and] at done
        subst done
        have left : y.checkRead.2.unread = y.unread := by simp [Ypipe.unread]
        rw [Ypipe.unread_of_lt some_left] at left
        exact ⟨by simpa using readable, y.checkRead.2, _, _, by simp [Upipe.checkRead], left,
          last⟩
  · cases done

end Pair

end Zmq
