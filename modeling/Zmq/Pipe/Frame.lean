import Zmq.Pipe.Outcome

/-! # What a step leaves alone

Most properties look at a part of the pair only: at its queues, at the commands in
flight, at the options of its pipes. For each part one case analysis says what a
step can do to it.
-/

namespace Zmq

open Function

namespace Pair

/-! ## Queues -/

/-- A property of all queues of a pair, by the end that reads them. -/
def Queues (Q : End → Upipe → Prop) (s : Pair) : Prop := ∀ x k q, s.queue x k = some q → Q x q

end Pair

/-- The messages an action puts into a queue, with the `incomplete` argument. -/
def Action.Puts (p : Pipe) : Action → Msg → Bool → Prop
  | .write m _, put, incomplete => put = m ∧ incomplete = m.more
  | .terminate .., put, incomplete => put = .initDelimiter ∧ incomplete = false
  | .sendDisconnectMsg _, put, incomplete => put = p.disconnectMsg ∧ incomplete = false
  | _, _, _ => False

/-- `Q` survives all that an action of the pipe at `e` may do to a queue it reads or
    to one it writes. -/
structure Upipe.Kept (Q : End → Upipe → Prop) (e : End) (p : Pipe) (a : Action) : Prop where
  read : ∀ u u', Q e u → Read u u' → Q e u'
  fresh : a = .hiccup → Q e (.new p.conflate)
  cut : ∀ u u', Q e.peer u → Cut u u' → Q e.peer u'
  flush : ∀ u, Q e.peer u → Q e.peer u.flush.2
  write : ∀ u m incomplete lock, a.Puts p m incomplete → Q e.peer u →
    Q e.peer (u.write m incomplete lock)

/-- What the writer of a queue does to it, when it writes nothing but what `puts` allows. -/
inductive Upipe.Fed (puts : Msg → Bool → Prop) : Upipe → Upipe → Prop where
  | alone {u : Upipe} : Fed puts u u
  | cut {u v u' : Upipe} : Cut u v → Fed puts v u' → Fed puts u u'
  | flush {u u' : Upipe} : Fed puts u.flush.2 u' → Fed puts u u'
  | write {u u' : Upipe} {m : Msg} {incomplete : Bool} (lock : Bool) : puts m incomplete →
      Fed puts (u.write m incomplete lock) u' → Fed puts u u'

theorem Upipe.Fed.keeps {Q : Upipe → Prop} {puts : Msg → Bool → Prop} {u u' : Upipe}
    (fed : Fed puts u u') (cut : ∀ u u', Q u → u.Cut u' → Q u') (flush : ∀ u, Q u → Q u.flush.2)
    (write : ∀ u m incomplete lock, puts m incomplete → Q u → Q (u.write m incomplete lock))
    (holds : Q u) : Q u' := by
  induction fed with
  | alone => exact holds
  | cut how _ ih => exact ih (cut _ _ holds how)
  | flush _ ih => exact ih (flush _ holds)
  | write lock put _ ih => exact ih (write _ _ _ lock put holds)

namespace Pair

variable {s t : Pair} {e x : End} {a : Action} {k j : Nat} {q u u' : Upipe}

theorem found_of_free (found : update (s.queue x) k none j = some q) :
    s.queue x j = some q := by
  by_cases same : j = k
  · simp [same] at found
  · rwa [update_of_ne same] at found

theorem found_update {R : Upipe → Upipe → Prop} (alone : ∀ u, R u u) (here : s.queue x k = some u)
    (moved : R u u') (found : update (s.queue x) k (some u') j = some q) :
    ∃ p, s.queue x j = some p ∧ R p q := by
  by_cases same : j = k
  · subst same
    obtain rfl : u' = q := by simpa using found
    exact ⟨u, here, moved⟩
  · rw [update_of_ne same] at found
    exact ⟨q, found, alone q⟩

theorem all_update {Q : Upipe → Prop} (all : ∀ j q, s.queue x j = some q → Q q) (holds : Q u)
    (found : update (s.queue x) k (some u) j = some q) : Q q := by
  by_cases same : j = k
  · subst same
    obtain rfl : u = q := by simpa using found
    exact holds
  · rw [update_of_ne same] at found
    exact all j q found

section

variable (outcome : Outcome s e a t)
include outcome

theorem Outcome.read_or_new (found : t.queue e k = some q) :
    (∃ p, s.queue e k = some p ∧ p.Read q) ∨
      a = .hiccup ∧ k = (s.pipe e).inPipe + 1 ∧ q = .new (s.pipe e).conflate := by
  have moves {p p' : Upipe} (here : s.queue e (s.pipe e).inPipe = some p) (read : p.Read p')
      (found : update (s.queue e) (s.pipe e).inPipe (some p') k = some q) :=
    found_update (fun _ => .alone) here read found
  have unread {r : Option Msg} {t : Pair} (reading : Reading s e r t)
      (found : t.queue e k = some q) : ∃ p, s.queue e k = some p ∧ p.Read q := by
    cases reading with
    | closed => exact ⟨q, found, .alone⟩
    | dry _ here dry => exact moves here (.dry dry) (by simpa using found)
    | accepted _ here takes | delimiter _ here takes | answered _ here takes =>
      exact moves here (.takes takes) (by simpa using found)
  cases outcome with
  | peeked _ here peeked => exact .inl (moves here (.peeked peeked) (by simpa using found))
  | checked reading | read reading => exact .inl (unread reading found)
  | write how | rollback how | flush how | terminate how | sendDisconnectMsg how =>
    exact .inl ⟨q, by cases how <;> simpa using found, .alone⟩
  | hiccup hiccuping =>
    cases hiccuping with
    | skipped => exact .inl ⟨q, found, .alone⟩
    | renewed =>
      simp only [post_queue, setPipe_queue, setQueue_queue] at found
      by_cases same : k = (s.pipe e).inPipe + 1
      · subst same
        exact .inr ⟨rfl, rfl, by simpa using found.symm⟩
      · rw [update_of_ne same] at found
        exact .inl ⟨q, found, .alone⟩
  | deliver at_head receiving =>
    refine .inl ⟨q, ?_, .alone⟩
    cases receiving with
    | leaves | answersAndLeaves => exact found_of_free (by simpa using found)
    | _ => simpa using found
  | _ => exact .inl ⟨q, by simpa using found, .alone⟩

theorem Outcome.fed (found : t.queue e.peer k = some q) :
    ∃ p, s.queue e.peer k = some p ∧ p.Fed (a.Puts (s.pipe e)) q := by
  have moves {p p' : Upipe} {j : Nat} (here : s.queue e.peer j = some p)
      (fed : p.Fed (a.Puts (s.pipe e)) p')
      (found : update (s.queue e.peer) j (some p') k = some q) :=
    found_update (fun _ => .alone) here fed found
  cases outcome with
  | checked reading | read reading =>
    cases reading with
    | answered _ _ _ _ _ _ here cut => exact moves here (.cut cut .alone) (by simpa using found)
    | _ => exact ⟨q, by simpa using found, .alone⟩
  | write writing =>
    cases writing with
    | written lock _ _ _ _ here =>
      exact moves here (.write lock ⟨rfl, rfl⟩ .alone) (by simpa using found)
    | _ => exact ⟨q, by simpa using found, .alone⟩
  | rollback rolling =>
    cases rolling with
    | skipped => exact ⟨q, found, .alone⟩
    | cut _ here cut => exact moves here (.cut cut .alone) (by simpa using found)
  | flush flushing =>
    cases flushing with
    | skipped => exact ⟨q, found, .alone⟩
    | flushed _ _ here => exact moves here (.flush .alone) (by simpa using found)
  | terminate terminating =>
    cases terminating with
    | already => exact ⟨q, by simpa using found, .alone⟩
    | asked lock _ _ here cut | delayed lock _ _ here cut =>
      exact moves here (.cut cut (.write lock ⟨rfl, rfl⟩ (.flush .alone))) (by simpa using found)
    | answered _ _ here cut => exact moves here (.cut cut .alone) (by simpa using found)
  | sendDisconnectMsg disconnecting =>
    cases disconnecting with
    | skipped => exact ⟨q, found, .alone⟩
    | sent lock _ here cut =>
      exact moves here (.cut cut (.write lock ⟨rfl, rfl⟩ (.flush .alone))) (by simpa using found)
  | hiccup hiccuping => cases hiccuping <;> exact ⟨q, by simpa using found, .alone⟩
  | deliver at_head receiving =>
    refine ⟨q, ?_, .alone⟩
    cases receiving with
    | replaced => exact found_of_free (by simpa using found)
    | _ => simpa using found
  | _ => exact ⟨q, by simpa using found, .alone⟩

variable {Q : Upipe → Prop}

theorem Outcome.queues_reader (stays : a ≠ .hiccup) (read : ∀ u u', Q u → u.Read u' → Q u')
    (all : ∀ k q, s.queue e k = some q → Q q) : ∀ k q, t.queue e k = some q → Q q := by
  intro k q found
  rcases outcome.read_or_new found with ⟨p, here, moved⟩ | ⟨hiccup, -⟩
  · exact read p q (all k p here) moved
  · exact absurd hiccup stays

theorem Outcome.queues_writer (cut : ∀ u u', Q u → u.Cut u' → Q u') (flush : ∀ u, Q u → Q u.flush.2)
    (write : ∀ u m incomplete lock, a.Puts (s.pipe e) m incomplete → Q u →
      Q (u.write m incomplete lock))
    (all : ∀ k q, s.queue e.peer k = some q → Q q) : ∀ k q, t.queue e.peer k = some q → Q q := by
  intro k q found
  obtain ⟨p, here, fed⟩ := outcome.fed found
  exact fed.keeps cut flush write (all k p here)

end

variable {Q : End → Upipe → Prop}

theorem Queues.outcome (all : s.Queues Q) (kept : Upipe.Kept Q e (s.pipe e) a)
    (outcome : Outcome s e a t) : t.Queues Q := by
  intro x k q found
  rcases x.eq_or_peer e with rfl | rfl
  · rcases outcome.read_or_new found with ⟨p, here, read⟩ | ⟨hiccup, -, rfl⟩
    · exact kept.read p q (all x k p here) read
    · exact kept.fresh hiccup
  · exact outcome.queues_writer kept.cut kept.flush kept.write (all e.peer) k q found

/-- All messages ever put into a queue of the pair, but for those taken back, by the
    end they are for. -/
def Carried (P : End → Msg → Prop) (s : Pair) : Prop :=
  s.Queues fun x q => ∀ m ∈ q.items, P x m

theorem Carried.outcome {P : End → Msg → Prop} (carried : s.Carried P) (outcome : Outcome s e a t)
    (puts : ∀ m incomplete, a.Puts (s.pipe e) m incomplete → P e.peer m) : t.Carried P := by
  refine Queues.outcome carried ⟨?_, ?_, ?_, ?_, ?_⟩ outcome
  · intro u u' all read
    rwa [read.items]
  · intro _
    simp
  · intro u u' all cut m member
    exact all m (cut.mem_items member)
  · intro u all
    rwa [Upipe.items_flush]
  · intro u m incomplete lock put all k member
    rcases Upipe.mem_items_write member with old | rfl
    · exact all k old
    · exact puts k incomplete put

end Pair

/-! ## What is sent -/

/-- The commands an action sends. An answer to `pipe_term` is the one command that
    depends on more than the action; `after` is the state it leaves the pipe in. -/
def Action.Sends (after : PipeState) : Action → Command → Prop
  | _, .pipeTermAck => after ≠ .active
  | .terminate .., .pipeTerm => True
  | .read, .activateWrite _ => True
  | .flush, .activateRead | .terminate .., .activateRead
  | .sendDisconnectMsg _, .activateRead => True
  | .hiccup, .hiccup _ => True
  | .sendHwmsToPeer inhwm outhwm, .pipeHwm inhwm' outhwm' => inhwm' = inhwm ∧ outhwm' = outhwm
  | .sendStatsToPeer, .pipePeerStats _ => True
  | _, _ => False

theorem Action.sends_pipeTermAck {after : PipeState} (a : Action) :
    a.Sends after .pipeTermAck ↔ after ≠ .active := by
  cases a <;> exact Iff.rfl

def Command.isHwm : Command → Bool
  | .pipeHwm .. => true
  | _ => false

def Command.isHiccup : Command → Bool
  | .hiccup _ => true
  | _ => false

/-- The actions that change watermarks, here or at the peer. -/
def Action.tunes : Action → Bool
  | .setHwms .. | .sendHwmsToPeer .. => true
  | _ => false

namespace Pair

variable {s t : Pair} {e : End} {a : Action} {c d : Command}

theorem Outcome.mem_mailbox (outcome : Outcome s e a t) (member : c ∈ t.mailbox e) :
    c ∈ s.mailbox e := by
  cases outcome with
  | checked how | read how | write how | rollback how | flush how | hiccup how | terminate how
  | sendDisconnectMsg how => cases how <;> simpa using member
  | deliver at_head receiving =>
    rw [at_head]
    apply List.mem_cons_of_mem
    cases receiving <;> simpa using member
  | _ => simpa using member

theorem mem_post_self : c ∈ (s.post e c).mailbox e.peer := by simp

theorem mem_post (member : d ∈ (s.post e c).mailbox e.peer) : d ∈ s.mailbox e.peer ∨ d = c := by
  simpa using member

theorem mem_postIf {b : Bool} (member : d ∈ (s.postIf e b c).mailbox e.peer) :
    d ∈ s.mailbox e.peer ∨ d = c := by
  cases b with
  | false => exact .inl member
  | true => exact mem_post member

theorem Outcome.mem_mailbox_peer (outcome : Outcome s e a t) (member : c ∈ t.mailbox e.peer) :
    c ∈ s.mailbox e.peer ∨ a.Sends (t.pipe e).state c := by
  cases outcome with
  | checked reading =>
    cases reading with
    | closed | dry | delimiter => exact .inl (by simpa using member)
    | answered => exact (mem_post member).imp_right (by rintro rfl; simp [Action.sends_pipeTermAck])
  | read reading =>
    cases reading with
    | closed | dry | delimiter => exact .inl (by simpa using member)
    | accepted => exact (mem_postIf member).imp_right (by rintro rfl; trivial)
    | answered => exact (mem_post member).imp_right (by rintro rfl; simp [Action.sends_pipeTermAck])
  | write writing | rollback writing => cases writing <;> exact .inl (by simpa using member)
  | flush flushing =>
    cases flushing with
    | skipped => exact .inl member
    | flushed => exact (mem_postIf member).imp_right (by rintro rfl; trivial)
  | hiccup hiccuping =>
    cases hiccuping with
    | skipped => exact .inl member
    | renewed => exact (mem_post member).imp_right (by rintro rfl; trivial)
  | terminate terminating =>
    cases terminating with
    | already => exact .inl member
    | asked =>
      rcases mem_postIf member with sent | rfl
      · exact (mem_post sent).imp_right (by rintro rfl; trivial)
      · exact .inr trivial
    | delayed => exact (mem_postIf member).imp_right (by rintro rfl; trivial)
    | answered => exact (mem_post member).imp_right (by rintro rfl; simp [Action.sends_pipeTermAck])
  | sendDisconnectMsg disconnecting =>
    cases disconnecting with
    | skipped => exact .inl member
    | sent => exact (mem_postIf member).imp_right (by rintro rfl; trivial)
  | deliver at_head receiving =>
    cases receiving with
    | answers | crosses => 
      exact Or.imp (by simp) (by rintro rfl; simp [Action.sends_pipeTermAck]) (mem_post member)
    | answersAndLeaves state =>
      exact Or.imp (by simp) (by rintro rfl; simp_all [Action.sends_pipeTermAck]) (mem_post member)
    | _ => exact .inl (by simpa using member)
  | peeked | writable | full | setNodelay | setHwms | setHwmsBoost | setDisconnectMsg =>
    exact .inl (by simpa using member)
  | sendHwmsToPeer => exact (mem_post member).imp_right (by rintro rfl; exact ⟨rfl, rfl⟩)
  | sendStatsToPeer => exact (mem_post member).imp_right (by rintro rfl; trivial)

/-! ## Options -/

theorem Outcome.conflate (outcome : Outcome s e a t) (x : End) :
    (t.pipe x).conflate = (s.pipe x).conflate := by
  rcases x.eq_or_peer e with rfl | rfl
  · cases outcome with
    | checked how | read how | write how | rollback how | flush how | hiccup how | terminate how
    | sendDisconnectMsg how => cases how <;> simp
    | deliver at_head receiving => cases receiving <;> simp [Pipe.setHwms]
    | _ => simp [Pipe.setHwms, Pipe.setHwmsBoost]
  · rw [outcome.pipe_peer]

/-- The message `e` leaves when it disconnects has no flags. -/
def Parting (s : Pair) (e : End) : Prop := ∃ data, (s.pipe e).disconnectMsg = { data := data }

theorem Outcome.parting (outcome : Outcome s e a t) {x : End} (parting : s.Parting x) :
    t.Parting x := by
  rcases x.eq_or_peer e with rfl | rfl
  · cases outcome with
    | checked how | read how | write how | rollback how | flush how | hiccup how | terminate how =>
      cases how <;> simpa [Parting] using parting
    | sendDisconnectMsg disconnecting =>
      cases disconnecting with
      | skipped => exact parting
      | sent => exact ⟨[], by simp [Msg.init]⟩
    | setDisconnectMsg => exact ⟨_, by simp; rfl⟩
    | deliver at_head receiving => cases receiving <;> simpa [Parting, Pipe.setHwms] using parting
    | _ => simpa [Parting, Pipe.setHwms, Pipe.setHwmsBoost] using parting
  · rwa [Parting, outcome.pipe_peer]

theorem Parting.plain (parting : s.Parting e) : (s.pipe e).disconnectMsg.isDelimiter = false ∧
    (s.pipe e).disconnectMsg.isCredential = false ∧ (s.pipe e).disconnectMsg.more = false := by
  obtain ⟨data, same⟩ := parting
  rw [same]
  simp only [Msg.isDelimiter, Msg.isCredential, Msg.more]
  decide

def Settled (s : Pair) : Prop := ∀ e inhwm outhwm, Command.pipeHwm inhwm outhwm ∉ s.mailbox e

instance (s : Pair) : Decidable s.Settled :=
  decidable_of_iff (∀ e, ∀ c ∈ s.mailbox e, c.isHwm = false)
    (by
      refine ⟨fun all e inhwm outhwm member => ?_, fun settled e c member => ?_⟩
      · cases all e _ member
      · cases c with
        | pipeHwm inhwm outhwm => exact absurd member (settled e inhwm outhwm)
        | _ => rfl)

theorem Outcome.settled (outcome : Outcome s e a t) (still : a.tunes = false)
    (settled : s.Settled) : t.Settled := by
  intro x inhwm outhwm member
  rcases x.eq_or_peer e with rfl | rfl
  · exact settled _ _ _ (outcome.mem_mailbox member)
  · rcases outcome.mem_mailbox_peer member with old | sent
    · exact settled _ _ _ old
    · cases a with
      | sendHwmsToPeer => cases still
      | _ => cases sent

theorem Outcome.marks (outcome : Outcome s e a t) (still : a.tunes = false) (settled : s.Settled)
    (x : End) : (t.pipe x).hwm = (s.pipe x).hwm ∧ (t.pipe x).lwm = (s.pipe x).lwm := by
  rcases x.eq_or_peer e with rfl | rfl
  · cases outcome with
    | checked reading | read reading => cases reading <;> simp
    | write how | rollback how | flush how | hiccup how | terminate how
    | sendDisconnectMsg how => cases how <;> simp
    | deliver at_head receiving =>
      cases receiving with
      | limited => exact absurd (by rw [at_head]; exact List.mem_cons_self) (settled _ _ _)
      | _ => simp
    | setHwms | sendHwmsToPeer => cases still
    | _ => simp [Pipe.setHwmsBoost]
  · rw [outcome.pipe_peer]
    exact ⟨rfl, rfl⟩

/-- Pairs without conflation: all queues are lock-free. -/
structure LockFree (s : Pair) : Prop where
  option : ∀ e, (s.pipe e).conflate = false
  queue : s.Queues fun _ q => q.lockFree = true

namespace LockFree

theorem normal (free : s.LockFree) {x : End} {k : Nat} {q : Upipe} (here : s.queue x k = some q) :
    ∃ y, q = .normal y :=
  Upipe.lockFree_iff.mp (free.queue x k q here)

theorem outcome (free : s.LockFree) (outcome : Outcome s e a t) : t.LockFree where
  option x := by rw [outcome.conflate, free.option]
  queue := by
    refine free.queue.outcome ⟨?_, ?_, ?_, ?_, ?_⟩ outcome
    · intro u u' kind read
      rw [read.lockFree, kind]
    · intro _
      rw [free.option]
      rfl
    · intro u u' kind cut
      rw [cut.lockFree, kind]
    · intro u kind
      rw [Upipe.lockFree_flush, kind]
    · intro u m incomplete lock _ kind
      rw [Upipe.lockFree_write, kind]

end LockFree

theorem attached_lockFree (hwms : End → Int) : (attached hwms fun _ => false).LockFree where
  option _ := rfl
  queue e k q found := by
    obtain rfl := new_of_attached found
    rfl

end Pair

end Zmq
