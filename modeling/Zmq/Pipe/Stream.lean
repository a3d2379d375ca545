import Zmq.Pipe.Frame

/-! # What a pipe carries

One direction of a pair without conflation and without hiccups, as a stream of frames.
For its writer the stream has two parts, the frames handed over to the reader and the
frames of a message that is not finished. For its reader it is the frames taken so far.
Delimiters belong to the pipe and are not part of a stream; neither are, for the reader,
credentials.
-/

namespace Zmq

open Function

def Msg.isData (m : Msg) : Bool := !m.isDelimiter && !m.isCredential

/-- The calls on a pipe that put nothing into it, a last delimiter apart, and take
    nothing back. -/
def Action.aside : Action → Bool
  | .write .. | .rollback | .flush | .sendDisconnectMsg _ => false
  | _ => true

namespace Upipe

/-! ## The writer's view of a queue -/

def flushed : Upipe → List Msg
  | .normal y => (y.items.take y.w).filter (!·.isDelimiter)
  | .conflate _ => []

/-- `u'` is `u` after its writer gave up an unfinished message and perhaps left a
    delimiter. -/
inductive Closes (u : Upipe) : Upipe → Prop where
  | cut {u' : Upipe} : u.Cut u' → Closes u u'
  | delimited {v : Upipe} (lock : Bool) : u.Cut v →
      Closes u (v.write .initDelimiter false lock).flush.2

variable {done begun begun' : List Msg} {live live' : Prop} {u u' : Upipe} {m : Msg}

/-- A lock-free queue into which the finished messages `done` were put and, while `live`,
    the frames `begun` of a message that is not finished. -/
inductive Logs (done begun : List Msg) (live : Prop) : Upipe → Prop where
  | normal {y : Ypipe Msg} : (y.items.take y.f).filter (!·.isDelimiter) = done →
      (live → y.items.drop y.f = begun) → Logs done begun live (.normal y)

theorem Logs.mono (logs : u.Logs done begun live) (less : live' → live) :
    u.Logs done begun live' := by
  obtain ⟨same, rest⟩ := logs
  exact .normal same fun holds => rest (less holds)

theorem Logs.of_dead (logs : u.Logs done begun live) (dead : ¬ live') :
    u.Logs done begun' live' := by
  obtain ⟨same, -⟩ := logs
  exact .normal same fun holds => absurd holds dead

theorem Logs.same {y y' : Ypipe Msg} (logs : (Upipe.normal y).Logs done begun live)
    (items : y'.items = y.items) (f : y'.f = y.f) : (Upipe.normal y').Logs done begun live := by
  cases logs with
  | normal same rest =>
    exact .normal (by rw [items, f, same]) fun holds => by rw [items, f, rest holds]

theorem Logs.read (logs : u.Logs done begun live) (read : u.Read u') : u'.Logs done begun live := by
  obtain ⟨y, y', rfl, rfl, items, w, f⟩ | ⟨p, p', rfl, rfl⟩ := read.writer
  · exact logs.same items f
  · cases logs

theorem Logs.flush (logs : u.Logs done begun live) : u.flush.2.Logs done begun live := by
  cases logs with
  | normal same rest => exact .normal (by simpa using same) (by simpa using rest)

theorem Logs.cut (logs : u.Logs done begun live) (cut : u.Cut u') : u'.Logs done [] live' := by
  cases cut with
  | conflate => cases logs
  | normal items front w f c =>
    cases logs with
    | normal same rest =>
      refine .normal (by rw [items, f, List.take_take, Nat.min_self, same]) fun _ => ?_
      rw [items, f]
      exact List.drop_eq_nil_of_le (by rw [List.length_take]; omega)

theorem Logs.more (logs : u.Logs done begun True) (lock : Bool) :
    (u.write m true lock).Logs done (begun ++ [m]) live := by
  cases logs with
  | @normal y same rest =>
    have := y.f_le_back
    refine .normal ?_ fun _ => ?_
    · simpa [List.take_append_of_le_length this] using same
    · simp [List.drop_append_of_le_length this, rest trivial]

theorem Logs.finish (logs : u.Logs done begun True) (lock : Bool) :
    (u.write m false lock).Logs (done ++ (begun ++ [m]).filter (!·.isDelimiter)) [] live := by
  cases logs with
  | @normal y same rest =>
    have whole : y.items = y.items.take y.f ++ begun := by
      rw [← rest trivial, List.take_append_drop]
    refine .normal ?_ fun _ => by simp
    simp only [Ypipe.write_items]
    rw [List.take_of_length_le (by simp)]
    conv_lhs => rw [whole]
    rw [List.append_assoc, List.filter_append, same]

theorem Logs.closes (logs : u.Logs done begun live) (closes : u.Closes u') :
    u'.Logs done [] live' := by
  cases closes with
  | cut cut => exact logs.cut cut
  | delimited lock cut =>
    have finish : Upipe.Logs _ [] live' _ :=
      Logs.finish (m := .initDelimiter) (logs.cut cut) lock
    simpa using finish.flush

def Handed : Upipe → Prop
  | .normal y => y.w = y.f
  | .conflate _ => True

theorem Logs.flushed_eq (logs : u.Logs done begun live) (handed : u.Handed) : u.flushed = done := by
  cases logs with
  | @normal y same rest => rwa [flushed, show y.w = y.f from handed]

theorem handed_flush (u : Upipe) : u.flush.2.Handed := by
  cases u with
  | normal y => simp [flush, Handed]
  | conflate => trivial

theorem handed_new (conflate : Bool) : (Upipe.new conflate).Handed := by
  cases conflate with
  | false => rfl
  | true => trivial

theorem Handed.read (handed : u.Handed) (read : u.Read u') : u'.Handed := by
  obtain ⟨y, y', rfl, rfl, items, w, f⟩ | ⟨p, p', rfl, rfl⟩ := read.writer
  · exact w.trans (Eq.trans handed f.symm)
  · trivial

theorem Handed.cut (handed : u.Handed) (cut : u.Cut u') : u'.Handed := by
  cases cut with
  | normal items front w f => exact w.trans (Eq.trans handed f.symm)
  | conflate => trivial

theorem Handed.write_more (handed : u.Handed) (lock : Bool) : (u.write m true lock).Handed := by
  cases u with
  | normal y => simpa [write, Handed] using handed
  | conflate => trivial

theorem Handed.closes (handed : u.Handed) (closes : u.Closes u') : u'.Handed := by
  cases closes with
  | cut cut => exact handed.cut cut
  | delimited => exact handed_flush _

theorem logs_new : (Upipe.new false).Logs [] [] live := .normal rfl fun _ => rfl

/-! ## The reader's view of a queue -/

def taken : Upipe → List Msg
  | .normal y => (y.items.take y.front).filter Msg.isData
  | .conflate _ => []

theorem taken_new (conflate : Bool) : (Upipe.new conflate).taken = [] := by
  cases conflate <;> rfl

theorem Peeked.taken_eq (peeked : u.Peeked u') : u'.taken = u.taken := by
  cases peeked with
  | normal items w f front => rw [taken, taken, items, front]
  | conflate => rfl

theorem Cut.taken_eq (cut : u.Cut u') : u'.taken = u.taken := by
  cases cut with
  | conflate => rfl
  | normal items front => rw [taken, taken, Ypipe.take_front_cut items front]

theorem taken_write (u : Upipe) (m : Msg) (incomplete lock : Bool) :
    (u.write m incomplete lock).taken = u.taken := by
  cases u with
  | conflate p => rfl
  | normal y => simp only [write, taken, Ypipe.take_front_write]

theorem taken_flush (u : Upipe) : u.flush.2.taken = u.taken := by
  cases u with
  | conflate p => rfl
  | normal y => simp [flush, taken]

theorem filter_credentials {skipped : List Msg} (all : ∀ k ∈ skipped, k.isCredential = true) :
    skipped.filter Msg.isData = [] := by
  rw [List.filter_eq_nil_iff]
  intro k member
  simp [Msg.isData, all k member]

theorem Dry.taken_eq (dry : u.Dry u') : u'.taken = u.taken := by
  cases dry with
  | conflate => rfl
  | normal items w f front c creds =>
    rw [taken, taken, Ypipe.take_front_dry items front, List.filter_append, filter_credentials creds,
      List.append_nil]

theorem Takes.taken_eq (takes : u.Takes m u') (free : u.lockFree = true) :
    u'.taken = u.taken ++ [m].filter Msg.isData := by
  cases takes with
  | conflate => cases free
  | normal skipped items w f c creds split front =>
    rw [taken, taken, Ypipe.take_front_takes items split front, List.filter_append,
      List.filter_append, filter_credentials creds, List.nil_append]

end Upipe

namespace Pair

variable {s t v : Pair} {e : End} {a : Action} {sent done begun got : List Msg} {m : Msg} {k : Nat}
  {q u : Upipe} {Q : Upipe → Prop} {r : Option Msg} {j : Nat}

section

variable (outcome : Outcome s e a t)
include outcome

theorem Outcome.active (active : (t.pipe e).state = .active) : (s.pipe e).state = .active := by
  cases outcome with
  | checked how | read how | terminate how => cases how <;> simp_all
  | write how | rollback how | flush how | hiccup how | sendDisconnectMsg how =>
    cases how <;> simpa using active
  | deliver at_head receiving =>
    cases receiving with
    | waits | answers | crosses => simp at active
    | _ => simpa [Pipe.setHwms] using active
  | _ =>
    simpa [Pipe.setHwms, Pipe.setHwmsBoost] using active

theorem Outcome.outActive (aside : a.aside = true) (other : a ≠ .checkWrite)
    (active : (t.pipe e).state = .active)
    (live : (s.pipe e).outActive = true) : (t.pipe e).outActive = true := by
  cases outcome with
  | checked how | read how | hiccup how => cases how <;> simpa using live
  | terminate terminating => cases terminating <;> simp_all
  | deliver at_head receiving =>
    cases receiving with
    | writeWoken | replaced => simp
    | _ => simpa [Pipe.setHwms] using live
  | write | rollback | flush | sendDisconnectMsg => cases aside
  | writable | full => exact absurd rfl other
  | _ => simpa [Pipe.setHwms, Pipe.setHwmsBoost] using live

theorem Outcome.inActive (other : a ≠ .read) (another : a ≠ .checkRead)
    (awake : (s.pipe e).inActive = true) : (t.pipe e).inActive = true := by
  cases outcome with
  | peeked | checked => exact absurd rfl another
  | read => exact absurd rfl other
  | write how | rollback how | flush how | terminate how | sendDisconnectMsg how =>
    cases how <;> simpa using awake
  | hiccup hiccuping =>
    cases hiccuping with
    | skipped => exact awake
    | renewed => simp
  | deliver at_head receiving =>
    cases receiving with
    | readWoken => simp
    | _ => simpa [Pipe.setHwms] using awake
  | _ => simpa [Pipe.setHwms, Pipe.setHwmsBoost] using awake

theorem Outcome.deleted (call : a ≠ .deliver) : (t.pipe e).deleted = (s.pipe e).deleted := by
  cases outcome with
  | checked how | read how | write how | rollback how | flush how | hiccup how | terminate how
  | sendDisconnectMsg how => cases how <;> simp
  | deliver => exact absurd rfl call
  | _ => simp [Pipe.setHwms, Pipe.setHwmsBoost]

end

/-- The direction from `e` to its peer, without conflation and without hiccups. -/
structure Stream (s : Pair) (e : End) : Prop where
  sound : s.Sound
  free : s.LockFree
  calm : ∀ k, Command.hiccup k ∉ s.mailbox e

namespace Stream

theorem attached (hwms : End → Int) : (attached hwms fun _ => false).Stream e where
  sound := attached_sound hwms _
  free := attached_lockFree hwms
  calm := by simp [Pair.attached, pipepair]

section

variable (stream : s.Stream e)
include stream

theorem writer (can : s.CanAct (e, a)) (outcome : Outcome s e a t) :
    t.Stream e where
  sound := outcome.sound stream.sound can
  free := stream.free.outcome outcome
  calm k member := stream.calm k (outcome.mem_mailbox member)

theorem reader (can : s.CanAct (e.peer, a)) (outcome : Outcome s e.peer a t)
    (stays : a ≠ .hiccup) : t.Stream e where
  sound := outcome.sound stream.sound can
  free := stream.free.outcome outcome
  calm k member := by
    have sent := outcome.mem_mailbox_peer (c := .hiccup k) (by rwa [End.peer_peer])
    rw [End.peer_peer] at sent
    rcases sent with old | sent
    · exact stream.calm k old
    · cases a with
      | hiccup => exact stays rfl
      | _ => cases sent

theorem only (here : s.queue e.peer k = some q) (there : s.queue e.peer j = some u) : k = j := by
  have chain := stream.sound.inv.chain e.peer
  have held {i : Nat} {v : Upipe} (found : s.queue e.peer i = some v) :
      s.handshake.held e.peer i = true := by
    simp [handshake, found]
  have quiet : Handshake.Signal.pipes (s.handshake.box e.peer.peer) = [] := by
    rw [End.peer_peer, Handshake.Signal.pipes, List.filterMap_eq_nil_iff]
    intro signal member
    obtain ⟨c, inside, rfl⟩ := List.mem_map.mp member
    cases c with
    | hiccup k => exact absurd inside (stream.calm k)
    | _ => rfl
  cases out : s.handshake.writes e.peer.peer with
  | none =>
    have all := (chain.parted out).2
    rw [((all k).mp (held here)).1, ((all j).mp (held there)).1]
  | some i =>
    obtain ⟨-, pending, all⟩ := chain.linked i out
    rw [quiet] at pending
    have none_pending := congrArg List.length pending
    simp only [List.length_nil, List.length_range'] at none_pending
    have := (all k).mp (held here)
    have := (all j).mp (held there)
    omega

theorem change (here : s.queue e.peer k = some q)
    (same : t.queue e.peer = update (s.queue e.peer) k (some u))
    (holds : Q u) : ∀ j v, t.queue e.peer j = some v → Q v := by
  intro j v found
  rw [same] at found
  by_cases there : j = k
  · subst there
    obtain rfl : u = v := by simpa using found
    exact holds
  · rw [update_of_ne there] at found
    exact absurd (stream.only found here) there

end

end Stream

/-! ## The writer's view of a pair -/

/-- The writer left its queues alone, or gave one up together with the pipe. -/
def Outbound (s t : Pair) (e : End) : Prop :=
  t.queue e.peer = s.queue e.peer ∨ (t.pipe e).state ≠ .active ∧ ∃ k u u',
    s.queue e.peer k = some u ∧ u.Closes u' ∧
      t.queue e.peer = update (s.queue e.peer) k (some u')

theorem Reading.outbound (reading : Reading s e r t) : s.Outbound t e := by
  cases reading with
  | closed | dry | accepted | delimiter => exact .inl (by simp)
  | answered _ _ _ _ _ _ found cut => exact .inr ⟨by simp, _, _, _, found, .cut cut, by simp⟩

theorem Outcome.outbound (outcome : Outcome s e a t) (aside : a.aside = true)
    (calm : a = .deliver → ∀ k, (s.mailbox e).head? ≠ some (.hiccup k)) : s.Outbound t e := by
  cases outcome with
  | checked reading | read reading => exact reading.outbound
  | terminate terminating =>
    cases terminating with
    | already => exact .inl (by simp)
    | asked lock _ _ found cut =>
      exact .inr ⟨by simp, _, _, _, found, .delimited lock cut, by simp⟩
    | delayed lock state _ found cut =>
      exact .inr ⟨by simp [state], _, _, _, found, .delimited lock cut, by simp⟩
    | answered _ _ found cut => exact .inr ⟨by simp, _, _, _, found, .cut cut, by simp⟩
  | hiccup hiccuping => cases hiccuping <;> exact .inl (by simp)
  | deliver at_head receiving =>
    cases receiving with
    | replaced => exact absurd (by rw [at_head]; rfl) (calm rfl _)
    | _ => exact .inl (by simp)
  | write | rollback | flush | sendDisconnectMsg => cases aside
  | _ => exact .inl (by simp)

def Handed (s : Pair) (e : End) : Prop := ∀ k q, s.queue e.peer k = some q → q.Handed

def HandedElsewhere (s : Pair) (e : End) : Prop :=
  ∀ k q, s.queue e.peer k = some q → (s.pipe e).outPipe ≠ some k → q.Handed

theorem Handed.attached (hwms : End → Int) : (attached hwms fun _ => false).Handed e := by
  intro k q found
  obtain rfl := new_of_attached found
  exact Upipe.handed_new _

section

variable (handed : s.Handed e)
include handed

theorem Handed.change (same : t.queue e.peer = update (s.queue e.peer) k (some u))
    (holds : u.Handed) : t.Handed e := by
  intro j q found
  rw [same] at found
  exact all_update handed holds found

theorem Handed.reader (outcome : Outcome s e.peer a t) : t.Handed e := by
  intro k q found
  rcases outcome.read_or_new found with ⟨p, here, read⟩ | ⟨-, -, rfl⟩
  · exact (handed k p here).read read
  · exact Upipe.handed_new _

theorem Handed.writer (outcome : Outcome s e a t) (aside : a.aside = true) : t.Handed e := by
  cases a with
  | deliver =>
    -- a hiccup frees the old queue
    cases outcome with
    | deliver at_head receiving =>
      intro k q found
      apply handed k q
      cases receiving with
      | replaced => exact found_of_free (by simpa using found)
      | _ => simpa using found
  | _ =>
    rcases outcome.outbound aside nofun with same | ⟨-, k, u, u', here, closes, same⟩
    · intro k q found
      rw [same] at found
      exact handed k q found
    · exact handed.change same ((handed k u here).closes closes)

theorem Handed.elsewhere : s.HandedElsewhere e :=
  fun k q found _ => handed k q found

theorem Handed.refused (writing : Writing s e m false t) : t.Handed e := by
  cases writing with
  | refused => exact handed
  | full => simpa [Handed] using handed

theorem Handed.more (writing : Writing s e m true t) (more : m.more = true) : t.Handed e := by
  cases writing with
  | @written q k lock live state room here found =>
    refine handed.change (k := k) (u := q.write m m.more lock) (by simp) ?_
    rw [more]
    exact (handed k q found).write_more lock

end

theorem HandedElsewhere.write {b : Bool} (handed : s.HandedElsewhere e)
    (writing : Writing s e m b t) : t.HandedElsewhere e := by
  cases writing with
  | refused => exact handed
  | full => simpa [HandedElsewhere] using handed
  | @written q k lock live state room here found =>
    intro j p there elsewhere
    simp only [setPipe_self, Pipe.countWritten_fields] at elsewhere
    simp only [setPipe_queue, setQueue_queue] at there
    have same : j ≠ k := by
      rintro rfl
      exact elsewhere here
    rw [update_of_ne same] at there
    exact handed j p there elsewhere

theorem HandedElsewhere.flush (handed : s.HandedElsewhere e) (active : (s.pipe e).state = .active)
    (out : (s.pipe e).outPipe ≠ none) (flushing : Flushing s e t) : t.Handed e := by
  cases flushing with
  | skipped closed => simp [active, out] at closed
  | @flushed q k silent here found =>
    intro j p there
    simp only [postIf_queue, setQueue_queue] at there
    by_cases same : j = k
    · subst same
      obtain rfl : q.flush.2 = p := by simpa using there
      exact Upipe.handed_flush q
    · rw [update_of_ne same] at there
      exact handed j p there (by rw [here]; simpa using Ne.symm same)

theorem Handed.finish (handed : s.Handed e) (writing : Writing s e m true t)
    (flushing : Flushing t e v) : v.Handed e := by
  have elsewhere := handed.elsewhere.write writing
  cases writing with
  | written lock live state room here found =>
    exact elsewhere.flush (by simpa using state) (by simp [here]) flushing

theorem Handed.flush (handed : s.Handed e) (flushing : Flushing s e t) : t.Handed e := by
  cases flushing with
  | skipped => exact handed
  | @flushed q k silent here found =>
    exact handed.change (k := k) (u := q.flush.2) (by simp) (Upipe.handed_flush q)

theorem Handed.rollback (handed : s.Handed e) (rolling : RollingBack s e t) : t.Handed e := by
  cases rolling with
  | skipped => exact handed
  | @cut u u' k here found cut =>
    exact handed.change (k := k) (u := u') (by simp) ((handed k u found).cut cut)

/-- What `e` has finished, flushed or not, and what it has begun. -/
structure Logged (s : Pair) (e : End) (done begun : List Msg) : Prop extends s.Stream e where
  queue : ∀ k q, s.queue e.peer k = some q → q.Logs done begun ((s.pipe e).state = .active)

namespace Logged

theorem attached (hwms : End → Int) : (attached hwms fun _ => false).Logged e [] [] where
  toStream := .attached hwms
  queue k q found := by
    obtain rfl := new_of_attached found
    exact .normal rfl fun _ => rfl

section

variable (logged : s.Logged e done begun)
include logged

theorem writer (can : s.CanAct (e, a)) (outcome : Outcome s e a t)
    (aside : a.aside = true) : t.Logged e done begun where
  toStream := logged.toStream.writer can outcome
  queue := by
    rcases outcome.outbound aside fun _ k head =>
      logged.calm k (List.mem_of_mem_head? head) with
      same | ⟨closed, k, u, u', here, closes, same⟩
    · rw [same]
      intro k q found
      exact (logged.queue k q found).mono outcome.active
    · have logs : u'.Logs done [] False := (logged.queue k u here).closes closes
      exact logged.toStream.change here same (logs.of_dead closed)

theorem reader (can : s.CanAct (e.peer, a))
    (outcome : Outcome s e.peer a t) (stays : a ≠ .hiccup) : t.Logged e done begun where
  toStream := logged.toStream.reader can outcome stays
  queue := by
    have same : t.pipe e = s.pipe e := by simpa using outcome.pipe_peer
    rw [same]
    exact outcome.queues_reader stays (fun _ _ logs read => logs.read read) logged.queue

theorem flush (can : s.CanAct (e, .flush)) (flushing : Flushing s e t) : t.Logged e done begun where
  toStream := logged.toStream.writer can (.flush flushing)
  queue := by
    cases flushing with
    | skipped => exact logged.queue
    | @flushed q k silent here found =>
      have logs := (logged.queue k q found).flush
      exact logged.toStream.change (u := q.flush.2) found (by simp) (by simpa using logs)

theorem rollback (can : s.CanAct (e, .rollback))
    (rolling : RollingBack s e t) : t.Logged e done [] where
  toStream := logged.toStream.writer can (.rollback rolling)
  queue := by
    cases rolling with
    | @cut u u' k here found cut =>
      exact logged.toStream.change (u := u') found (by simp) ((logged.queue _ _ found).cut cut)
    | skipped out =>
      -- an endpoint without a queue has confirmed its termination
      intro k q found
      apply (logged.queue k q found).of_dead
      intro state
      obtain ⟨k, q, here, -⟩ :=
        logged.sound.outPipe (silent_of_state can (by simp [*]))
      simp [out] at here

section

variable (stays : (s.pipe e).deleted = false)
include stays

theorem refused
    (writing : Writing s e m false t) : t.Logged e done begun where
  toStream := logged.toStream.writer (a := .write m true) stays (.write writing)
  queue := by
    cases writing with
    | refused => exact logged.queue
    | full => simpa using logged.queue

theorem more (writing : Writing s e m true t)
    (more : m.more = true) : t.Logged e done (begun ++ [m]) where
  toStream := logged.toStream.writer (a := .write m true) stays (.write writing)
  queue := by
    cases writing with
    | @written q k lock live state room here found =>
      have logs : q.Logs done begun True := (logged.queue k q found).mono fun _ => state
      refine logged.toStream.change (u := q.write m m.more lock) found (by simp) ?_
      rw [more]
      exact logs.more lock

theorem finish (writing : Writing s e m true t)
    (last : m.more = false) : t.Logged e (done ++ (begun ++ [m]).filter (!·.isDelimiter)) [] where
  toStream := logged.toStream.writer (a := .write m true) stays (.write writing)
  queue := by
    cases writing with
    | @written q k lock live state room here found =>
      have logs : q.Logs done begun True := (logged.queue k q found).mono fun _ => state
      refine logged.toStream.change (u := q.write m m.more lock) found (by simp) ?_
      rw [last]
      exact logs.finish lock

end

theorem disconnect {lock : Bool} (can : s.CanAct (e, .sendDisconnectMsg lock))
    (disconnecting : Disconnecting s e t) (some_left : (s.pipe e).disconnectMsg.size ≠ 0) :
    t.Logged e (done ++ [(s.pipe e).disconnectMsg].filter (!·.isDelimiter)) [] where
  toStream := logged.toStream.writer (a := .sendDisconnectMsg lock) can
    (.sendDisconnectMsg disconnecting)
  queue := by
    cases disconnecting with
    | skipped none_left => exact absurd none_left some_left
    | @sent u u' k lock here found cut =>
      have logs : Upipe.Logs _ [] ((s.pipe e).state = .active) _ :=
        Upipe.Logs.finish (m := (s.pipe e).disconnectMsg) ((logged.queue k u found).cut cut) lock
      exact logged.toStream.change (u := (u'.write (s.pipe e).disconnectMsg false lock).flush.2)
        found (by simp) (by simpa using logs.flush)

end

end Logged

/-- What `e` has put into the pipe, all of it handed over but for an unfinished message. Once the
    pipe is not active any more, nobody cares for that one. -/
structure Conveys (s : Pair) (e : End) (sent begun : List Msg) : Prop
    extends s.Logged e sent begun where
  handed : s.Handed e

namespace Conveys

section

variable (conveys : s.Conveys e sent begun)
include conveys

theorem flushed (found : s.queue e.peer k = some q) : q.flushed = sent :=
  (conveys.queue k q found).flushed_eq (conveys.handed k q found)

theorem of_closed (closed : (s.pipe e).state ≠ .active)
    {begun' : List Msg} : s.Conveys e sent begun' where
  toStream := conveys.toStream
  queue k q found := (conveys.queue k q found).of_dead closed
  handed := conveys.handed

theorem writer (can : s.CanAct (e, a))
    (outcome : Outcome s e a t) (aside : a.aside = true) : t.Conveys e sent begun :=
  ⟨conveys.toLogged.writer can outcome aside, conveys.handed.writer outcome aside⟩

section

variable (stays : (s.pipe e).deleted = false)
include stays

theorem finish (writing : Writing s e m true t)
    (last : m.more = false) (flushing : Flushing t e v) :
    v.Conveys e (sent ++ (begun ++ [m]).filter (!·.isDelimiter)) [] := by
  have outcome : Outcome s e (.write m true) t := .write writing
  have logged := conveys.toLogged.finish stays writing last
  exact ⟨logged.flush ((outcome.deleted nofun).trans stays) flushing,
    conveys.handed.finish writing flushing⟩

end

end

end Conveys

/-! ## The reader's view of a pair -/

structure Consumes (s : Pair) (e : End) (got : List Msg) : Prop extends s.Stream e.peer where
  queue : ∀ k q, s.queue e k = some q → q.taken = got

namespace Consumes

theorem attached (hwms : End → Int) : (attached hwms fun _ => false).Consumes e [] where
  toStream := .attached hwms
  queue k q found := by
    obtain rfl := new_of_attached found
    exact Upipe.taken_new _

section

variable (consumes : s.Consumes e got)
include consumes

theorem stream_reader (can : s.CanAct (e, a))
    (outcome : Outcome s e a t) (stays : a ≠ .hiccup) : t.Stream e.peer :=
  consumes.toStream.reader (by rwa [End.peer_peer]) (by rwa [End.peer_peer]) stays

theorem writer (can : s.CanAct (e.peer, a))
    (outcome : Outcome s e.peer a t) : t.Consumes e got where
  toStream := consumes.toStream.writer can outcome
  queue := by
    have all : ∀ k q, s.queue e.peer.peer k = some q → q.taken = got := by
      simpa using consumes.queue
    have kept := outcome.queues_writer ?_ ?_ ?_ all
    · simpa using kept
    · intro u u' taken cut
      rw [cut.taken_eq, taken]
    · intro u taken
      rw [Upipe.taken_flush, taken]
    · intro u m incomplete lock _ taken
      rw [Upipe.taken_write, taken]

theorem change (stream : t.Stream e.peer) (here : s.queue e k = some q)
    (same : t.queue e = update (s.queue e) k (some u)) {got' : List Msg}
    (taken : u.taken = got') : t.Consumes e got' where
  toStream := stream
  queue := by
    have all := consumes.toStream.change (Q := fun q => q.taken = got') (by simpa using here)
      (by simpa using same) taken
    simpa using all

theorem reading (stream : t.Stream e.peer)
    (reading : Reading s e r t) : t.Consumes e (got ++ r.toList) := by
  have takes' {q q' : Upipe} {m : Msg} (here : s.queue e (s.pipe e).inPipe = some q)
      (takes : q.Takes m q')
      (same : t.queue e = update (s.queue e) (s.pipe e).inPipe (some q')) :
      t.Consumes e (got ++ [m].filter Msg.isData) := by
    refine consumes.change stream here same ?_
    rw [takes.taken_eq (consumes.free.queue _ _ _ here), consumes.queue _ _ here]
  cases reading with
  | closed => exact ⟨stream, by simpa using consumes.queue⟩
  | @dry q q' readable here dry =>
    refine consumes.change (u := q') stream here (by simp) ?_
    rw [dry.taken_eq, consumes.queue _ _ here]
    simp
  | accepted _ here takes plain data =>
    simpa [Msg.isData, plain, data] using takes' here takes (by simp)
  | delimiter _ here takes data | answered _ here takes data =>
    simpa [Msg.isData, data] using takes' here takes (by simp)

theorem read (stays : (s.pipe e).deleted = false)
    (reading : Reading s e r t) : t.Consumes e (got ++ r.toList) :=
  consumes.reading (consumes.stream_reader (a := .read) stays (.read reading) nofun) reading

theorem reader (can : s.CanAct (e, a)) (outcome : Outcome s e a t) (stays : a ≠ .hiccup)
    (other : a ≠ .read) : t.Consumes e got := by
  have stream := consumes.stream_reader can outcome stays
  cases outcome with
  | @peeked q q' readable here peeked =>
    refine consumes.change (u := q') stream here (by simp) ?_
    rw [peeked.taken_eq, consumes.queue _ _ here]
  | checked reading => simpa using consumes.reading stream reading
  | read => exact absurd rfl other
  | hiccup => exact absurd rfl stays
  | write how | rollback how | flush how | terminate how | sendDisconnectMsg how =>
    exact ⟨stream, by cases how <;> simpa using consumes.queue⟩
  | deliver at_head receiving =>
    refine ⟨stream, fun k q found => consumes.queue k q ?_⟩
    cases receiving with
    | leaves | answersAndLeaves => exact found_of_free (by simpa using found)
    | _ => simpa using found
  | _ => exact ⟨stream, by simpa using consumes.queue⟩

end

end Consumes

end Pair

end Zmq
