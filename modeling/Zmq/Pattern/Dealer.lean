import Zmq.Pattern.Fq
import Zmq.Pattern.Lb
import Zmq.Pipe.Written

/-! # Sending and receiving on the same pipes

`dealer_t` gives every pipe both to a load balancer and to a fair queue. What one of them
does to a pipe is for the other just another call of the socket: both keep what is known
of them alone.
-/

namespace Zmq

open Lib Function

section Uses

variable {ι : Type} [DecidableEq ι] {got : Option (ι × Msg)}

variable {A B : Action → Prop} {pair pair' pair'' : ι → Pair} {p : ι} {msg : Msg}

theorem Pair.LockFree.used {a : Action} {t : Pair} (free : ∀ i, (pair i).LockFree)
    (outcome : (pair p).Outcome .first a t) : ∀ i, (update pair p t i).LockFree :=
  (forall_update_iff pair fun _ s => s.LockFree).mpr ⟨(free p).outcome outcome, fun i _ => free i⟩

theorem Uses.free (uses : Uses A pair pair') (free : ∀ i, (pair i).LockFree) :
    ∀ i, (pair' i).LockFree := by
  induction uses with
  | nothing => exact free
  | call _ _ outcome _ ih => exact ih (Pair.LockFree.used free outcome)

theorem Uses.trans (first : Uses A pair pair') (second : Uses A pair' pair'') :
    Uses A pair pair'' := by
  induction first with
  | nothing => exact second
  | call is stays outcome _ ih => exact .call is stays outcome (ih second)

variable {fq fq' : Fq ι} {b : Bool}

theorem Fq.Runs.uses (runs : fq.Runs pair) (uses : Uses A pair pair')
    (call : ∀ a, A a → a ≠ .deliver) : fq.Runs pair' := by
  induction uses with
  | nothing => exact runs
  | call is stays outcome _ ih =>
    have calls := call _ is
    refine ih (runs.use (fun _ => (outcome.deleted calls).trans stays) ?_ fun _ _ => id)
    exact outcome.sound (runs.holds _) (by simpa [Pair.CanAct, calls] using stays)

theorem Fq.Fetches.uses (fetches : Fq.Fetches fq pair got fq' pair') (runs : fq.Runs pair) :
    fq'.Runs pair' ∧ Uses (· = .read) pair pair' := by
  induction fetches with
  | nothing => exact ⟨runs, .nothing⟩
  | frame turn reading =>
    have uses := Uses.call (A := (· = .read)) rfl (runs.at_turn turn) (.read reading) .nothing
    exact ⟨(runs.uses uses (by simp)).move (Fq.ok_fetched runs.ok turn) fun i => by simp, uses⟩
  | retired idle turn reading retired _ ih =>
    obtain ⟨runs', uses⟩ := ih (runs.retired turn reading retired)
    exact ⟨runs', .call rfl (runs.at_turn turn) (.read reading) uses⟩

theorem Fq.Looks.uses (looks : Fq.Looks fq pair b fq' pair') (runs : fq.Runs pair) :
    fq'.Runs pair' ∧ Uses (· = .checkRead) pair pair' := by
  induction looks with
  | nothing => exact ⟨runs, .nothing⟩
  | ready turn ends =>
    have uses := Uses.call (A := (· = .checkRead)) rfl (runs.at_turn turn)
      (runs.checkRead turn ends) .nothing
    exact ⟨runs.uses uses (by simp), uses⟩
  | retired turn reading retired _ ih =>
    obtain ⟨runs', uses⟩ := ih (runs.retired turn reading retired)
    exact ⟨runs', .call rfl (runs.at_turn turn) (.checked reading) uses⟩

theorem Fq.Runs.attach (runs : fq.Runs pair) (stays : ((pair p).pipe .first).deleted = false)
    (done : fq.attach p = .ok fq') : fq'.Runs pair := by
  refine ⟨Fq.ok_attach runs.ok done, fun i member => ?_, runs.holds⟩
  rcases (Fq.mem_attach done).mp member with old | rfl
  · exact runs.stays i old
  · exact stays

theorem Fq.Runs.deliver {t : Pair} {event : Option Event} (runs : fq.Runs pair)
    (member : p ∈ fq.pipes.items) (waiting : (pair p).mailbox .first ≠ [])
    (done : (pair p).deliver .first = .ok (t, event))
    (reacts : FairQueue.react fq p event = .ok fq') : fq'.Runs (update pair p t) := by
  obtain ⟨c, rest, at_head, receiving, outcome⟩ := (runs.holds p).receiving waiting done
  have sound : t.Sound := outcome.sound (runs.holds p) waiting
  have stays := runs.stays p member
  have kept (still : (t.pipe .first).deleted = false) : fq.Runs (update pair p t) :=
    runs.use (fun _ => still) sound fun _ _ => id
  cases receiving with
  | readWoken asleep =>
    obtain ⟨r, woken, rfl⟩ := bind_return.mp reacts
    exact (kept (by simpa using stays)).move (runs.ok.activated woken) fun i =>
      (Rota.mem_activated woken).mp
  | leaves | answersAndLeaves =>
    obtain ⟨r, removed, rfl⟩ := bind_return.mp reacts
    have members (i : ι) := Rota.mem_pipeTerminated member removed (q := i)
    refine Rota.Serves.use (P := fun _ s => s.Sound) ?_
      (fun still => absurd rfl ((members p).mp still).2) sound fun _ _ => id
    exact runs.move (runs.ok.pipeTerminated member removed) fun i there => ((members i).mp there).1
  | _ =>
    obtain rfl : fq = fq' := by simpa [FairQueue.react] using reacts
    exact kept (by simpa [Pipe.setHwms] using stays)

def Action.writes : Action → Bool
  | .write .. | .rollback | .flush => true
  | _ => false

/-- What `e` can read of its pipe has a delimiter in it. -/
def Pair.seesDelimiter (s : Pair) (e : End) : Bool :=
  (s.pipe e).readable && match s.queue e (s.pipe e).inPipe with
    | some (.normal y) => y.unread.any (·.isDelimiter)
    | _ => false

section Delimiters

variable {s t : Pair} {e : End} {a : Action} {r : Option Msg}

theorem Pair.Outcome.written (outcome : s.Outcome e a t) (writes : a.writes = true) :
    t.seesDelimiter e = s.seesDelimiter e ∧
      ((t.checkWrite e).1 = true → (s.checkWrite e).1 = true) := by
  simp only [Pair.checkWrite_fst]
  cases outcome with
  | write how | rollback how | flush how =>
    cases how <;> simp_all [Pair.seesDelimiter, Pipe.readable]
  | _ => cases writes

theorem Pair.Reading.unseen (reading : s.Reading e r t) (free : s.LockFree)
    (unseen : s.seesDelimiter e = false) :
    t.seesDelimiter e = false ∧ ((s.checkWrite e).1 = true → (t.checkWrite e).1 = true) := by
  simp only [Pair.checkWrite_fst]
  have none_left {q q' : Upipe} {m : Msg} (readable : (s.pipe e).readable = true)
      (here : s.queue e (s.pipe e).inPipe = some q) (takes : q.Takes m q') :
      m.isDelimiter = false ∧ ∃ y, q' = .normal y ∧ y.unread.any (·.isDelimiter) = false := by
    cases takes with
    | conflate => cases free.queue _ _ _ here
    | normal skipped _ _ _ _ _ unread =>
      simp only [Pair.seesDelimiter, readable, here, unread, List.any_append, List.any_cons,
        Bool.true_and, Bool.or_eq_false_iff] at unseen
      exact ⟨unseen.2.1, _, rfl, unseen.2.2⟩
  cases reading with
  | closed => exact ⟨unseen, id⟩
  | dry =>
    exact ⟨by simp [Pair.seesDelimiter, Pipe.readable], fun room => by simpa [Pipe.checkHwm] using room⟩
  | accepted readable here takes =>
    obtain ⟨-, y, rfl, clean⟩ := none_left readable here takes
    exact ⟨by simp [Pair.seesDelimiter, clean], by simp⟩
  | delimiter readable here takes last | answered readable here takes last =>
    simp [(none_left readable here takes).1] at last

theorem Uses.written (uses : Uses (·.writes = true) pair pair') (i : ι) :
    (pair' i).seesDelimiter .first = (pair i).seesDelimiter .first ∧
      (((pair' i).checkWrite .first).1 = true → ((pair i).checkWrite .first).1 = true) := by
  induction uses with
  | nothing => exact ⟨rfl, id⟩
  | @call pair _ j _ t writes _ outcome _ ih =>
    by_cases same : i = j
    · subst same
      simp only [update_self] at ih
      obtain ⟨sees, room⟩ := outcome.written writes
      exact ⟨ih.1.trans sees, room ∘ ih.2⟩
    · simpa only [update_of_ne same] using ih

theorem Uses.unseen (uses : Uses (· = .read) pair pair') (free : ∀ i, (pair i).LockFree) (i : ι)
    (unseen : (pair i).seesDelimiter .first = false) (room : ((pair i).checkWrite .first).1 = true) :
    ((pair' i).checkWrite .first).1 = true := by
  induction uses with
  | nothing => exact room
  | @call pair _ j _ t reads _ outcome _ ih =>
    subst reads
    have free' := Pair.LockFree.used free outcome
    by_cases same : i = j
    · subst same
      cases outcome with
      | read reading =>
        obtain ⟨unseen', room'⟩ := reading.unseen (free i) unseen
        exact ih free' (by simpa using unseen') (by simpa using room' room)
    · exact ih free' (by simpa only [update_of_ne same] using unseen)
        (by simpa only [update_of_ne same] using room)

end Delimiters

variable {lb lb' : Lb ι}

theorem Lb.Tries.uses {attempt : Lb.Attempt ι} (tries : Lb.Tries msg lb pair attempt lb' pair')
    (runs : lb.Runs pair) :
    Uses (·.writes = true) pair pair' ∧ ∀ i ∈ lb'.pipes.items, i ∈ lb.pipes.items := by
  induction tries with
  | full => exact ⟨.nothing, fun _ => id⟩
  | written turn writing =>
    exact ⟨.call (a := .write msg true) rfl (runs.at_turn turn) (.write writing) .nothing,
      fun _ => id⟩
  | @aborted lb pair p t v more turn writing rolling =>
    have stays := runs.at_turn turn
    refine ⟨.call (a := .write msg true) rfl stays (.write writing) ?_, fun _ => id⟩
    have twice : update pair p v =
        update (update pair p t) p v := by simp
    rw [twice]
    refine .call (i := p) (a := .rollback) (t := v) rfl ?_ ?_ .nothing
    · rw [update_self]
      cases writing <;> simpa using stays
    · rw [update_self]
      exact .rollback rolling
  | skipped idle turn writing skipped _ ih =>
    obtain ⟨ok, members, -⟩ := Lb.skip_ok runs.ok skipped
    have own := writing.sound (runs.holds _)
    obtain ⟨uses, members'⟩ := ih ((Lb.refuse runs writing own).move ok members)
    exact ⟨.call (a := .write msg true) rfl (runs.at_turn turn) (.write writing) uses,
      fun i there => members i (members' i there)⟩

theorem Lb.sendpipe_uses {lock : Bool} {result : Lb.Sent ι} (runs : lb.Runs pair)
    (done : lb.sendpipe pair msg lock = .ok (result, lb', pair')) :
    Uses (·.writes = true) pair pair' ∧ ∀ i ∈ lb'.pipes.items, i ∈ lb.pipes.items := by
  unfold Lb.sendpipe at done
  split at done
  · cases done
    exact ⟨.nothing, fun _ => id⟩
  · obtain ⟨⟨attempt, lb₁, pair₁⟩, tried, done⟩ := bind_ok.mp done
    have tries := Lb.tryPipes_tries rfl runs tried
    have uses := tries.uses runs
    cases tries.tried runs fun _ _ _ _ writing sound => writing.sound sound with
    | full | aborted =>
      cases done
      exact uses
    | @written _ pair₁ p t was dropping turn serves writing =>
      have sound := writing.sound (serves.holds p)
      have stays : (t.pipe .first).deleted = false := by
        cases writing
        simpa using serves.at_turn turn
      obtain ⟨⟨lb₂, pair₂⟩, advanced, ⟨⟩⟩ := bind_ok.mp done
      unfold Lb.advance at advanced
      split at advanced
      · cases advanced
        exact uses
      · obtain ⟨v, ends, ⟨⟩⟩ := bind_ok.mp advanced
        refine ⟨uses.1.trans ?_, uses.2⟩
        rw [update_self] at ends
        refine .call (i := p) (a := .flush) rfl ?_ (.flush ?_) .nothing
        · rwa [update_self]
        · rw [update_self]
          exact sound.flushing ends

theorem Lb.hasOut_uses (runs : lb.Runs pair) (done : lb.hasOut pair = .ok (b, lb', pair')) :
    Uses (· = .checkWrite) pair pair' ∧ lb'.more = lb.more ∧ lb'.dropping = lb.dropping := by
  unfold Lb.hasOut at done
  split at done
  · cases done
    exact ⟨.nothing, rfl, rfl⟩
  · exact (Lb.anyWritable_uses rfl runs (fun _ _ _ stays outcome sound => outcome.sound sound stays)
      done).2

theorem Fq.hasIn_uses (runs : fq.Runs pair) (done : fq.hasIn pair = .ok (b, fq', pair')) :
    fq'.Runs pair' ∧ Uses (· = .checkRead) pair pair' := by
  obtain ⟨rfl, rfl⟩ | ⟨-, looks⟩ := Fq.hasIn_looks runs done
  · exact ⟨runs, .nothing⟩
  · exact looks.uses runs

end Uses

section Unread

variable {ι : Type} [DecidableEq ι] {pair pair' : ι → Pair} {p : ι} {msg : Msg} {s t : Pair}
  {fq fq' : Fq ι}

theorem Upipe.Takes.pending_lt {u u' : Upipe} (takes : u.Takes msg u') (free : u.lockFree = true) :
    u'.pending < u.pending := by
  cases takes with
  | @normal y y' skipped _ w _ _ _ _ front =>
    have := y'.front_le_w
    simp only [Upipe.pending]
    omega
  | conflate => cases free

theorem Upipe.Dry.pending_le {u u' : Upipe} (dry : u.Dry u') (free : u.lockFree = true) :
    u'.pending ≤ u.pending := by
  cases dry with
  | normal _ w _ front _ _ =>
    simp only [Upipe.pending]
    omega
  | conflate => cases free

def Pair.readableFrames (s : Pair) : Nat :=
  (s.queue .first (s.pipe .first).inPipe).elim 0 Upipe.pending

theorem Pair.Reading.readableFrames_lt (reading : s.Reading .first (some msg) t)
    (free : s.LockFree) : t.readableFrames < s.readableFrames := by
  cases reading with
  | @accepted q q' _ readable found takes =>
    simpa [Pair.readableFrames, found] using takes.pending_lt (free.queue _ _ _ found)

theorem Pair.Reading.readableFrames_le {r : Option Msg} (reading : s.Reading .first r t)
    (free : s.LockFree) : t.readableFrames ≤ s.readableFrames := by
  cases reading with
  | closed => exact Nat.le_refl _
  | dry _ found dry => simpa [Pair.readableFrames, found] using dry.pending_le (free.queue _ _ _ found)
  | accepted _ found takes | delimiter _ found takes | answered _ found takes =>
    simpa [Pair.readableFrames, found] using (takes.pending_lt (free.queue _ _ _ found)).le

def Fq.unread (fq : Fq ι) (pair : ι → Pair) : Nat :=
  (fq.pipes.items.map fun i => (pair i).readableFrames).sum

omit [DecidableEq ι] in
theorem ArrayT.nodup (a : ArrayT ι) : a.items.Nodup := by
  refine List.pairwise_iff_getElem.mpr fun i j hi hj before same => ?_
  have := a.inj (List.getElem?_eq_getElem hi) (by rw [List.getElem?_eq_getElem hj, same])
  omega

omit [DecidableEq ι] in
theorem Fq.unread_move (fq fq' : Fq ι)
    (members : ∀ i, i ∈ fq'.pipes.items ↔ i ∈ fq.pipes.items) : fq'.unread pair = fq.unread pair :=
  (((List.perm_ext_iff_of_nodup fq'.pipes.nodup fq.pipes.nodup).mpr members).map _).sum_eq

theorem Fq.unread_update_le (fewer : t.readableFrames ≤ (pair p).readableFrames) :
    fq.unread (update pair p t) ≤ fq.unread pair := by
  refine List.sum_le_sum fun i _ => ?_
  rcases eq_or_ne i p with rfl | other
  · simpa using fewer
  · simp [update_of_ne other]

theorem Fq.unread_retired_le {r : Rota ι} (free : (pair p).LockFree)
    (reading : (pair p).Reading .first none t) (retired : fq.toRota.retire fq.current = .ok r) :
    Fq.unread { fq with toRota := r } (update pair p t) ≤ fq.unread pair := by
  rw [unread_move fq _ fun i => Rota.mem_retire retired]
  exact unread_update_le (reading.readableFrames_le free)

theorem Fq.Fetches.unread_lt {got : ι × Msg} (fetches : Fq.Fetches fq pair (some got) fq' pair')
    (free : ∀ i, (pair i).LockFree) : fq'.unread pair' < fq.unread pair := by
  generalize same : some got = result at fetches
  induction fetches with
  | nothing => cases same
  | @frame fq pair p msg t turn reading =>
    have fewer := reading.readableFrames_lt (free p)
    rw [unread_move fq _ fun i => by simp]
    refine List.sum_lt_sum _ _ (fun i _ => ?_) ⟨p, Rota.mem_of_turn turn, by simpa using fewer⟩
    rcases eq_or_ne i p with rfl | other
    · simpa using fewer.le
    · simp [update_of_ne other]
  | @retired fq fq' pair pair' p t r got idle turn reading retired _ ih =>
    exact (ih (Pair.LockFree.used free (.read reading)) same).trans_le
      (unread_retired_le (free p) reading retired)

end Unread

namespace Lb

variable {ι : Type} [DecidableEq ι] {lb lb' : Lb ι} {pair pair' : ι → Pair} {p : ι} {msg : Msg}
  {sent begun : ι → List Msg} {lock : Bool} {result : Sent ι}

theorem accepts_again {s t : Pair} {e : End} (writing : s.Writing e msg true t)
    (more : msg.more = true) : (t.checkWrite e).1 = true := by
  rw [Pair.checkWrite_fst]
  cases writing with
  | written lock live state room =>
    have same : (s.pipe e).countWritten msg = s.pipe e := by simp [Pipe.countWritten, more]
    simp [same, live, state, room]

theorem sendpipe_turn (serves : lb.Serves pair (Carrying sent begun)) (more : msg.more = true)
    (done : lb.sendpipe pair msg lock = .ok (.sent p, lb', pair')) :
    lb'.turn p ∧ ((pair' p).checkWrite .first).1 = true := by
  unfold sendpipe at done
  split at done
  · cases done
  · obtain ⟨⟨attempt, lb₁, pair₁⟩, tried, done⟩ := bind_ok.mp done
    cases tryPipes_tried serves tried with
    | full | aborted => cases done
    | @written lb₁ pair₁ q t was dropping turn serves writing =>
      obtain ⟨⟨lb₂, pair₂⟩, advanced, done⟩ := bind_ok.mp done
      obtain ⟨rfl, rfl, rfl⟩ := done
      simp only [advance, more] at advanced
      obtain ⟨rfl, rfl⟩ := advanced
      exact ⟨turn, by simpa using accepts_again writing more⟩

theorem sendpipe_of_accepting (runs : lb.Runs pair) (kept : lb.dropping = false) (turn : lb.turn p)
    (accepts : ((pair p).checkWrite .first).1 = true)
    (done : lb.sendpipe pair msg lock = .ok (result, lb', pair')) : result = .sent p := by
  simp only [sendpipe, kept] at done
  obtain ⟨⟨attempt, lb₁, pair₁⟩, tried, done⟩ := bind_ok.mp done
  have writes {q : ι} {b : Bool} {t : Pair} (there : lb.turn q)
      (writing : (pair q).Writing .first msg b t) : q = p ∧ b = true := by
    obtain rfl := Rota.turn_unique there turn
    exact ⟨rfl, writing.of_checkWrite accepts⟩
  cases tryPipes_tries rfl runs tried with
  | full none_left =>
    have := turn.1
    omega
  | written there writing =>
    obtain ⟨rfl, -⟩ := writes there writing
    obtain ⟨⟨lb₂, pair₂⟩, -, done⟩ := bind_ok.mp done
    cases done
    exact rfl
  | aborted _ there writing | skipped _ there writing => cases (writes there writing).2

end Lb

namespace Balancer

variable {ι : Type} [DecidableEq ι] {lb : Lb ι} {pair pair' : ι → Pair} {begun : List Msg}
  {finished : List (List Msg)} {sent : List (ι × List Msg)}

theorem Inv.uses (inv : Inv ⟨lb, pair, begun, finished⟩ sent) {A : Zmq.Action → Prop}
    (uses : Uses A pair pair')
    (neutral : ∀ a, A a → a.aside = true ∧ a ≠ .checkWrite ∧ a ≠ .deliver) :
    Inv ⟨lb, pair', begun, finished⟩ sent := by
  induction uses with
  | nothing => exact inv
  | call is stays outcome _ ih =>
    obtain ⟨aside, other, call⟩ := neutral _ is
    exact ih (inv.call stays outcome aside other call)

end Balancer

/-- `dealer_t`, with its pipes. -/
structure Dealer (ι : Type) where
  lb : Lb ι
  fq : Fq ι
  pair : ι → Pair

namespace Dealer

variable {ι : Type} [DecidableEq ι] {p : ι} {msg : Msg} {b : Bool}

def start (hwms : ι → End → Int) : Dealer ι where
  lb := .empty
  fq := .empty
  pair i := .attached (hwms i) fun _ => false

/-- `xattach_pipe` without ZMQ_PROBE_ROUTER. -/
def attach (d : Dealer ι) (pipe : ι) : Except Fault (Dealer ι) := do
  let fq ← d.fq.attach pipe
  let lb ← d.lb.attach pipe
  .ok { d with fq := fq, lb := lb }

def sendpipe (d : Dealer ι) (msg : Msg) (tryLock : Bool) : Except Fault (Lb.Sent ι × Dealer ι) := do
  let (sent, lb, pair) ← d.lb.sendpipe d.pair msg tryLock
  .ok (sent, { d with lb := lb, pair := pair })

def recvpipe (d : Dealer ι) : Except Fault (Option (ι × Msg) × Dealer ι) := do
  let (got, fq, pair) ← d.fq.recvpipe d.pair
  .ok (got, { d with fq := fq, pair := pair })

def hasIn (d : Dealer ι) : Except Fault (Bool × Dealer ι) := do
  let (b, fq, pair) ← d.fq.hasIn d.pair
  .ok (b, { d with fq := fq, pair := pair })

def hasOut (d : Dealer ι) : Except Fault (Bool × Dealer ι) := do
  let (b, lb, pair) ← d.lb.hasOut d.pair
  .ok (b, { d with lb := lb, pair := pair })

def unread (d : Dealer ι) : Nat := d.fq.unread d.pair

/-- `xread_activated`, `xwrite_activated` and `xpipe_terminated`. -/
def react (d : Dealer ι) (pipe : ι) (event : Option Event) : Except Fault (Dealer ι) := do
  let fq ← FairQueue.react d.fq pipe event
  let lb ← Balancer.react d.lb pipe event
  .ok { d with fq := fq, lb := lb }

inductive Draws : Dealer ι → Dealer ι → Prop where
  | nothing {d : Dealer ι} : Draws d d
  | again {d d₁ d' : Dealer ι} {got : Option (ι × Msg)} : d.recvpipe = .ok (got, d₁) →
      Draws d₁ d' → Draws d d'

variable {d d' d'' : Dealer ι} {got : Option (ι × Msg)}

theorem Draws.trans (first : Draws d d') (second : Draws d' d'') : Draws d d'' := by
  induction first with
  | nothing => exact second
  | again done _ ih => exact .again done (ih second)

theorem recvpipe_fetches (runs : d.fq.Runs d.pair) (done : d.recvpipe = .ok (got, d')) :
    Fq.Fetches d.fq d.pair got d'.fq d'.pair ∧ d'.lb = d.lb := by
  obtain ⟨⟨got', fq, pair⟩, ran, ⟨⟩⟩ := bind_ok.mp done
  exact ⟨Fq.fetch_fetches rfl runs ran, rfl⟩

structure Readable (d : Dealer ι) : Prop where
  runs : d.fq.Runs d.pair
  free : ∀ i, (d.pair i).LockFree

theorem Readable.recvpipe (readable : d.Readable) (done : d.recvpipe = .ok (got, d')) :
    d'.Readable := by
  obtain ⟨fetches, -⟩ := recvpipe_fetches readable.runs done
  obtain ⟨runs, uses⟩ := fetches.uses readable.runs
  exact ⟨runs, uses.free readable.free⟩

theorem Draws.uses (draws : Draws d d') (runs : d.fq.Runs d.pair) :
    d'.fq.Runs d'.pair ∧ d'.lb = d.lb ∧ Uses (· = .read) d.pair d'.pair := by
  induction draws with
  | nothing => exact ⟨runs, rfl, .nothing⟩
  | again done _ ih =>
    obtain ⟨fetches, lb⟩ := recvpipe_fetches runs done
    obtain ⟨runs', first⟩ := fetches.uses runs
    obtain ⟨runs'', lb', uses⟩ := ih runs'
    exact ⟨runs'', lb'.trans lb, first.trans uses⟩

end Dealer

end Zmq
