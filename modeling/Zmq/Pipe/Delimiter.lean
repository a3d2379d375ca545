import Zmq.Pipe.Frame
import Zmq.Pipe.Termination

/-! # Waiting for the delimiter

An endpoint that was asked to terminate keeps reading until it meets the
delimiter its peer left in the queue. A hiccup that crosses the request makes the
peer drop the queue with the delimiter in it, and then nothing wakes the waiting
endpoint again. Without that crossing the delimiter is always there.
-/

namespace Zmq

open Lib Function

def Pipe.Listens (p : Pipe) : Prop := p.state = .active ∨ p.state = .waitingForDelimiter

theorem Pipe.readable_iff {p : Pipe} : p.readable = true ↔ p.inActive = true ∧ p.Listens := by
  simp [Pipe.readable, Pipe.Listens]

namespace Upipe

/-- A queue as its reader may find it later: no delimiter is lost, and if it puts
    the reader's sleep to an end, a command says so. -/
def Later (woken : Prop) : Upipe → Upipe → Prop
  | .normal y, .normal y' => (.initDelimiter ∈ y.unread → .initDelimiter ∈ y'.unread) ∧
      (y.c = none → y'.c = none ∨ woken)
  | .conflate _, .conflate _ => True
  | _, _ => False

variable {u u' v : Upipe} {woken : Prop} {m : Msg}

theorem Later.refl (u : Upipe) : Later woken u u := by
  cases u with
  | normal y => exact ⟨id, .inl⟩
  | conflate p => trivial

theorem Later.trans (first : Later woken u u') (second : Later woken u' v) : Later woken u v := by
  cases u <;> cases u' <;> cases v <;> simp only [Later] at *
  obtain ⟨kept, asleep⟩ := first
  obtain ⟨kept', asleep'⟩ := second
  refine ⟨fun member => kept' (kept member), fun null => ?_⟩
  rcases asleep null with null' | told
  · exact asleep' null'
  · exact .inr told

theorem Cut.later (cut : Cut u u') : Later woken u u' := by
  cases cut with
  | conflate => trivial
  | normal items front w f c =>
    rename_i y y'
    have same : y'.unread = y.unread := by
      simp only [Ypipe.unread, items, front, w, List.take_take, Nat.min_eq_left y.w_le_f]
    exact ⟨by rw [same]; exact id, by rw [c]; exact .inl⟩

theorem write_later (u : Upipe) (m : Msg) (inc lock : Bool) : Later woken u (u.write m inc lock) := by
  cases u with
  | conflate p => trivial
  | normal y => exact ⟨by rw [Ypipe.write_unread]; exact id, .inl⟩

theorem flush_later (u : Upipe) (told : u.flush.1 = false → woken) : Later woken u u.flush.2 := by
  cases u with
  | conflate p => trivial
  | normal y =>
    refine ⟨Ypipe.mem_flush_unread, fun null => ?_⟩
    by_cases idle : y.w = y.f
    · exact .inl (by rw [Ypipe.flush_c, if_pos idle, null])
    · exact .inr (told ((Ypipe.flush_false_iff y).mpr ⟨idle, null⟩))

theorem Takes.later (takes : Takes m u u') (data : m.isDelimiter = false) : Later woken u u' := by
  cases takes with
  | conflate => trivial
  | normal skipped items w f c creds split front =>
    refine ⟨fun member => ?_, by rw [c]; exact .inl⟩
    rw [split] at member
    rcases List.mem_append.mp member with skip | rest
    · have := creds _ skip
      simp at this
    · rcases List.mem_cons.mp rest with rfl | rest
      · simp at data
      · exact rest

theorem Peeked.later (peeked : Peeked u u') : Later woken u u' := by
  cases peeked with
  | conflate => trivial
  | normal items w f front c =>
    exact ⟨by simp only [Ypipe.unread, items, front, w]; exact id, by rw [c]; exact .inl⟩

theorem Dry.later (dry : Dry u u') : Later woken u u' := by
  cases dry with
  | conflate => trivial
  | normal items w f front null creds =>
    refine ⟨fun member => ?_, fun _ => .inl null⟩
    have := creds _ member
    simp at this

end Upipe

namespace Pair

/-- What an endpoint can rely on: a peer that asked has left a delimiter in the
    queue it writes to, and whatever lies in the endpoint's own queue, the
    endpoint is awake or about to be woken. -/
structure Served (s : Pair) (e : End) : Prop where
  left : (s.pipe e).Listens → (s.pipe e.peer).state = .termReqSent1 →
    (s.pipe e.peer).deleted = false → ∀ k y, (s.pipe e.peer).outPipe = some k →
      s.queue e k = some (.normal y) → .initDelimiter ∈ y.unread
  awake : (s.pipe e).Listens → (s.pipe e).inActive = false → ∀ y,
    s.queue e (s.pipe e).inPipe = some (.normal y) → y.c = none ∨ .activateRead ∈ s.mailbox e

def Onward (s t : Pair) (e : End) : Prop :=
  ∀ k u', t.queue e k = some u' →
    ∃ u, s.queue e k = some u ∧ u.Later (.activateRead ∈ t.mailbox e) u'

variable {s t : Pair} {e : End} {a : Action} {k : Nat}

theorem Onward.of_eq (same : t.queue e = s.queue e := by simp) : Onward s t e := by
  intro k u' here
  exact ⟨u', by rw [← same]; exact here, .refl u'⟩

theorem Onward.of_update {u u' : Upipe} (here : s.queue e k = some u)
    (later : u.Later (.activateRead ∈ t.mailbox e) u')
    (update : t.queue e = update (s.queue e) k (some u') := by simp) : Onward s t e := by
  intro j v found
  rw [update] at found
  by_cases same : j = k
  · subst same
    obtain rfl : u' = v := by simpa using found
    exact ⟨u, here, later⟩
  · rw [update_of_ne same] at found
    exact ⟨v, found, .refl v⟩

theorem Onward.of_free (update : t.queue e = update (s.queue e) k none) : Onward s t e := by
  intro j v found
  rw [update] at found
  by_cases same : j = k
  · subst same
    simp at found
  · rw [update_of_ne same] at found
    exact ⟨v, found, .refl v⟩

section

variable (served : s.Served e) (ahead : Onward s t e)
    (listens : (t.pipe e).Listens → (s.pipe e).Listens)
    (asleep : (t.pipe e).Listens → (t.pipe e).inActive = false →
      (s.pipe e).inActive = false ∧ (t.pipe e).inPipe = (s.pipe e).inPipe)
    (box : .activateRead ∈ s.mailbox e → .activateRead ∈ t.mailbox e)
include served ahead listens asleep box

theorem Served.awake_onward (open_ : (t.pipe e).Listens) (idle : (t.pipe e).inActive = false)
    (y' : Ypipe Msg) (here : t.queue e (t.pipe e).inPipe = some (.normal y')) :
    y'.c = none ∨ .activateRead ∈ t.mailbox e := by
  obtain ⟨idle', same⟩ := asleep open_ idle
  rw [same] at here
  obtain ⟨u, before, later⟩ := ahead _ _ here
  cases u with
  | conflate p => cases later
  | normal y =>
    rcases served.awake (listens open_) idle' y before with null | told
    · exact later.2 null
    · exact .inr (box told)

theorem Served.onward
    (asked : (t.pipe e).Listens → (t.pipe e.peer).state = .termReqSent1 →
      (t.pipe e.peer).deleted = false →
      (s.pipe e.peer).state = .termReqSent1 ∧ (s.pipe e.peer).deleted = false ∧
        (t.pipe e.peer).outPipe = (s.pipe e.peer).outPipe) : t.Served e where
  left := by
    intro open_ state stays k y' out here
    obtain ⟨state', stays', same⟩ := asked open_ state stays
    obtain ⟨u, before, later⟩ := ahead k _ here
    cases u with
    | conflate p => cases later
    | normal y =>
      rw [same] at out
      exact later.1 (served.left (listens open_) state' stays' k y out before)
  awake := served.awake_onward ahead listens asleep box

end

theorem Served.own (served : s.Served e) (ahead : Onward s t e := by exact .of_eq)
    (listens : (t.pipe e).Listens → (s.pipe e).Listens := by simp [Pipe.Listens, Pipe.setHwms])
    (asleep : (t.pipe e).Listens → (t.pipe e).inActive = false →
      (s.pipe e).inActive = false ∧ (t.pipe e).inPipe = (s.pipe e).inPipe := by simp [Pipe.setHwms])
    (box : .activateRead ∈ s.mailbox e → .activateRead ∈ t.mailbox e := by simp_all)
    (peer : t.pipe e.peer = s.pipe e.peer := by simp) : t.Served e := by
  refine served.onward ahead listens asleep box ?_
  rw [peer]
  exact fun _ state stays => ⟨state, stays, rfl⟩

theorem Served.other (served : s.Served e.peer) (onward : Onward s t e.peer := by exact .of_eq)
    (asked : (s.pipe e.peer).Listens → (t.pipe e).state = .termReqSent1 →
      (t.pipe e).deleted = false →
      (s.pipe e).state = .termReqSent1 ∧ (s.pipe e).deleted = false ∧
        (t.pipe e).outPipe = (s.pipe e).outPipe := by simp_all [Pipe.setHwms])
    (box : .activateRead ∈ s.mailbox e.peer → .activateRead ∈ t.mailbox e.peer := by simp_all)
    (peer : t.pipe e.peer = s.pipe e.peer := by simp) : t.Served e.peer := by
  refine served.onward onward (by rw [peer]; exact id) ?_ box ?_
  · rw [peer]
    exact fun _ idle => ⟨idle, rfl⟩
  · rw [peer, End.peer_peer]
    exact asked

theorem Served.of_not_listens (closed : ¬ (s.pipe e).Listens) : s.Served e :=
  ⟨fun open_ => absurd open_ closed, fun open_ => absurd open_ closed⟩

theorem Served.sleep (served : s.Served e)
    (null : ∀ y, s.queue e (s.pipe e).inPipe = some (.normal y) → y.c = none) :
    (s.setPipe e { s.pipe e with inActive := false }).Served e where
  left := by simpa [Pipe.Listens] using served.left
  awake := by
    intro _ _ y here
    exact .inl (null y (by simpa using here))

section

variable (served : ∀ x, s.Served x)
include served

theorem Served.reading {r : Option Msg} (reading : Reading s e r t) : ∀ x, t.Served x := by
  cases reading with
  | closed => exact served
  | dry readable here dry =>
    refine e.both ?_ (served e.peer).other
    refine Served.sleep ((served e).own (.of_update here dry.later)) ?_
    intro y found
    obtain rfl : _ = Upipe.normal y := by simpa using found
    cases dry with
    | normal items w f front null creds => exact null
  | accepted readable here takes data last =>
    refine e.both ?_ (served e.peer).other
    exact (served e).own (.of_update here (takes.later last))
  | delimiter readable here takes last state =>
    refine e.both ?_ (served e.peer).other
    exact .of_not_listens (by simp [Pipe.Listens])
  | answered readable here takes last state out found cut =>
    refine e.both ?_ ?_
    · exact .of_not_listens (by simp [Pipe.Listens])
    · exact (served e.peer).other (.of_update found cut.later)

theorem Served.writing {m : Msg} {b : Bool} (writing : Writing s e m b t) : ∀ x, t.Served x := by
  cases writing with
  | refused => exact served
  | full => exact e.both (served e).own (served e.peer).other
  | written lock live state room here found =>
    refine e.both (served e).own ?_
    exact (served e.peer).other (.of_update found (Upipe.write_later _ m m.more lock))

theorem Served.flushing (flushing : Flushing s e t) : ∀ x, t.Served x := by
  cases flushing with
  | skipped => exact served
  | flushed silent here found =>
    refine e.both (served e).own ?_
    exact (served e.peer).other (.of_update found (Upipe.flush_later _ (by simp_all)))

theorem Served.hiccuping (sound : s.Sound) (hiccuping : Hiccuping s e t) : ∀ x, t.Served x := by
  cases hiccuping with
  | skipped => exact served
  | renewed state =>
    refine e.both ?_ (served e.peer).other
    refine ⟨?_, by simp⟩
    intro _ asked stays k y out here
    -- The writer's queue is not the new one.
    have le : k ≤ (s.pipe e).inPipe := by
      obtain ⟨le, -⟩ := (sound.inv.chain e).linked k (by simpa [handshake] using out)
      exact le
    have other : k ≠ (s.pipe e).inPipe + 1 := by omega
    simp only [post_pipe, post_queue, setPipe_peer, setPipe_queue, setQueue_queue,
      update_of_ne other] at asked stays out here
    exact (served e).left (.inl state) asked stays k y out here

omit served in
theorem delimiter_later {u u' : Upipe} {woken : Prop} (lock : Bool) (cut : u.Cut u')
    (told : (u'.write .initDelimiter false lock).flush.1 = false → woken) :
    u.Later woken (u'.write .initDelimiter false lock).flush.2 :=
  cut.later.trans ((Upipe.write_later _ _ _ _).trans (Upipe.flush_later _ told))

theorem Served.terminating {delay : Bool}
    (terminating : Terminating s e delay t) : ∀ x, t.Served x := by
  cases terminating with
  | already => exact e.both (served e).own (served e.peer).other
  | @asked _ u u' k₀ lock state here found cut =>
    refine e.both ?_ ?_
    · exact .of_not_listens (by simp [Pipe.Listens])
    · constructor
      · intro _ _ _ k y out last
        obtain rfl : k₀ = k := by simpa [here] using out
        cases u' with
        | conflate p => simp [Upipe.write, Upipe.flush] at last
        | normal y' =>
          obtain rfl : _ = y := by simpa [Upipe.write, Upipe.flush] using last
          exact Ypipe.mem_flush_write y' .initDelimiter
      · exact (served e.peer).awake_onward
          (.of_update found (delimiter_later lock cut (by simp_all))) (by simp) (by simp)
          (by simp_all)
  | delayed lock state here found cut =>
    refine e.both (served e).own ?_
    exact (served e.peer).other (.of_update found (delimiter_later lock cut (by simp_all)))
  | answered state here found cut =>
    refine e.both ?_ ?_
    · exact .of_not_listens (by simp [Pipe.Listens])
    · exact (served e.peer).other (.of_update found cut.later)

/-- A hiccup that reaches an endpoint after it has asked its peer to terminate,
    while the peer still takes messages. The queue with the delimiter is dropped. -/
def Crossed (s : Pair) (e : End) : Prop :=
  (s.mailbox e).head?.any Command.isHiccup = true ∧ (s.pipe e).state = .termReqSent1 ∧
    (s.pipe e.peer).Listens

instance (s : Pair) (e : End) : Decidable (s.Crossed e) :=
  inferInstanceAs (Decidable (_ ∧ _ ∧ (_ ∨ _)))

theorem Served.receiving {c : Command} {rest : List Command} {ev : Option Event}
    (apart : ¬ s.Crossed e) (at_head : s.mailbox e = c :: rest)
    (receiving : Receiving (s.setMailbox e rest) e c ev t) : ∀ x, t.Served x := by
  cases receiving with
  | readWoken idle open_ =>
    refine e.both ?_ (served e.peer).other
    refine ⟨?_, by simp⟩
    simpa [Pipe.Listens] using (served e).left
  | readIgnored idle =>
    refine e.both ?_ (served e.peer).other
    refine ⟨by simpa using (served e).left, ?_⟩
    intro open_ asleep
    rcases idle with awake | closed
    · simp_all
    · exact absurd open_ closed
  | writeWoken | writeNoted | published | limited => exact e.both (served e).own (served e.peer).other
  | @replaced u old pipe here found =>
    refine e.both (served e).own ?_
    refine (served e.peer).other (.of_free (k := old) (by simp)) ?_
    intro open_ state
    exact absurd ⟨by rw [at_head]; rfl, by simpa using state, open_⟩ apart
  | waits state =>
    refine e.both ?_ (served e.peer).other
    exact (served e).own .of_eq (fun _ => .inl state)
  | answers | crosses | answersAndLeaves =>
    refine e.both ?_ (served e.peer).other
    exact .of_not_listens (by simp_all [Pipe.Listens])
  | leaves state =>
    refine e.both ?_ ?_
    · refine .of_not_listens ?_
      rcases state with state | state <;> simp_all [Pipe.Listens]
    · refine (served e.peer).other .of_eq ?_
      rcases state with state | state <;> simp_all

theorem Served.outcome (sound : s.Sound) (plain : a.plain = true)
    (apart : a = .deliver → ¬ s.Crossed e) (outcome : Outcome s e a t) : ∀ x, t.Served x := by
  cases outcome with
  | peeked readable here peeked =>
    refine e.both ?_ (served e.peer).other
    exact (served e).own (.of_update here peeked.later)
  | checked reading | read reading => exact Served.reading served reading
  | writable => exact served
  | full | setNodelay => exact e.both (served e).own (served e.peer).other
  | write writing => exact Served.writing served writing
  | rollback rolling =>
    cases rolling with
    | skipped => exact served
    | cut here found cut =>
      refine e.both (served e).own ?_
      exact (served e.peer).other (.of_update found cut.later)
  | flush flushing => exact Served.flushing served flushing
  | hiccup hiccuping => exact Served.hiccuping served sound hiccuping
  | terminate terminating => exact Served.terminating served terminating
  | deliver at_head receiving => exact Served.receiving served (apart rfl) at_head receiving
  | _ => cases plain

end

/-- A plain run in which no hiccup crosses a termination request. -/
def Uncrossed (s : Pair) (a : End × Action) : Prop :=
  s.Plain a ∧ (a.2 = .deliver → ¬ s.Crossed a.1)
  deriving Decidable

theorem attached_served (hwms : End → Int) (e : End) : (attached hwms fun _ => false).Served e where
  left := by simp [attached, pipepair, Pipe.new]
  awake := by simp [attached, pipepair, Pipe.new]

theorem Uncrossed.invariant {hwms : End → Int}
    (reached : Reaches Pair.step Uncrossed (attached hwms fun _ => false) s) :
    s.Sound ∧ s.LockFree ∧ ∀ e, s.Served e := by
  apply reached.invariant
  · exact ⟨attached_sound hwms _, attached_lockFree hwms, attached_served hwms⟩
  · rintro s ⟨e, a⟩ t ⟨sound, free, served⟩ ⟨plain, apart⟩ taken
    obtain ⟨t', ends, outcome, sound'⟩ := sound.plain_step plain
    obtain rfl : t' = t := by simpa [ends] using taken
    exact ⟨sound', free.outcome outcome, Served.outcome served sound plain.2 apart outcome⟩

def reads (s : Pair) (e : End) : Nat → Except Fault Pair
  | 0 => .ok s
  | n + 1 => do
      let (_, t) ← s.read e
      t.reads e n

theorem reads_closed (closed : (s.pipe e).readable = false) (n : Nat) : s.reads e n = .ok s := by
  induction n with
  | zero => rfl
  | succ n ih => simp [reads, Pair.read, closed, ih]

theorem reads_to_delimiter (n : Nat) {y : Ypipe Msg} (sound : s.Sound)
    (stays : (s.pipe e).deleted = false) (state : (s.pipe e).state = .waitingForDelimiter)
    (awake : (s.pipe e).inActive = true) (here : s.queue e (s.pipe e).inPipe = some (.normal y))
    (member : .initDelimiter ∈ y.unread) (enough : y.unread.length ≤ n) :
    ∃ t, s.reads e n = .ok t ∧ (t.pipe e).state = .termAckSent := by
  induction n generalizing s y with
  | zero =>
    have : y.unread = [] := List.length_eq_zero_iff.mp (by omega)
    simp [this] at member
  | succ n ih =>
    obtain ⟨r, t, ends, reading⟩ := sound.read stays
    have next : s.reads e (n + 1) = t.reads e n := by simp [reads, ends]
    rw [next]
    cases reading with
    | closed closed => simp [Pipe.readable, awake, state] at closed
    | dry readable found dry =>
      rw [here] at found
      cases found
      cases dry with
      | normal items w f front null creds =>
        have := creds _ member
        simp at this
    | delimiter readable found takes last active => simp [state] at active
    | answered readable found takes last waiting out there cut =>
      rw [reads_closed (by simp [Pipe.readable])]
      exact ⟨_, rfl, by simp⟩
    | accepted readable found takes data last =>
      have later : Upipe.Later True _ _ := takes.later last
      have sound' := (Reading.accepted readable found takes data last).sound sound stays
      rw [here] at found
      cases found
      cases takes with
      | normal skipped items w f c creds split front =>
        apply ih sound' (by simpa using stays) (by simpa using state) (by simpa using awake)
          (by simp) (later.1 member)
        have := congrArg List.length split
        simp only [List.length_append, List.length_cons] at this
        omega

/-- In every run without crossings an endpoint that waits for a delimiter, with
    no command left in either direction, has one in its queue, and reading the
    queue empty ends in the acknowledgement. -/
theorem waiting_end_has_delimiter (hwms : End → Int) {s : Pair}
    (reached : Reaches Pair.step Uncrossed (attached hwms fun _ => false) s) (e : End)
    (waiting : (s.pipe e).state = .waitingForDelimiter) (idle : ∀ x, s.mailbox x = []) :
    ∃ y, s.queue e (s.pipe e).inPipe = some (.normal y) ∧ .initDelimiter ∈ y.unread ∧
      ∃ t, s.reads e y.unread.length = .ok t ∧ (t.pipe e).state = .termAckSent := by
  obtain ⟨sound, free, served⟩ := Uncrossed.invariant reached
  have stays : (s.pipe e).deleted = false := by
    by_contra gone
    have := sound.inv.state_of_gone (e := e) (by simpa [handshake] using gone)
    simp [handshake, waiting] at this
  obtain ⟨asked, peer_stays⟩ :
      (s.pipe e.peer).state = .termReqSent1 ∧ (s.pipe e.peer).deleted = false := by
    have synced := sound.inv.synced e
    simp only [handshake, idle, List.map_nil, absorb_nil, Option.some.injEq, waiting, stays] at synced
    exact Phase.state_of_asked synced.symm
  have silent : s.Silent e.peer := silent_of_state peer_stays (by simp [*])
  obtain ⟨k, -, out, -⟩ := sound.outPipe silent
  obtain ⟨u, here⟩ := sound.inQueue stays
  obtain ⟨y, rfl⟩ := free.normal here
  -- With no hiccup in flight both ends mean the same queue.
  have same : k = (s.pipe e).inPipe := by
    obtain ⟨le, word, -⟩ := (sound.inv.chain e).linked k out
    have := congrArg List.length word
    simp only [handshake, idle, List.map_nil, Handshake.Signal.pipes, List.filterMap_nil,
      List.length_nil, List.length_range'] at this le
    omega
  subst same
  have member := (served e).left (.inr waiting) asked peer_stays _ y out here
  have awake : (s.pipe e).inActive = true := by
    by_contra asleep
    rcases (served e).awake (.inr waiting) (by simpa using asleep) y here with null | told
    · rw [Ypipe.unread_of_eq (y.asleep null)] at member
      cases member
    · rw [idle] at told
      cases told
  exact ⟨y, here, member,
    reads_to_delimiter _ sound stays waiting awake here member (Nat.le_refl _)⟩

def waitsIdle (s : Pair) (e : End) : Bool :=
  decide ((s.pipe e).state = .waitingForDelimiter) && (s.pipe e).delay &&
    (s.mailbox e).isEmpty && (s.mailbox e.peer).isEmpty

theorem waitsIdle_iff : s.waitsIdle e = true ↔ (s.pipe e).state = .waitingForDelimiter ∧
    (s.pipe e).delay = true ∧ ∀ x, s.mailbox x = [] := by
  simp only [waitsIdle, Bool.and_eq_true, decide_eq_true_eq, List.isEmpty_iff, and_assoc]
  constructor
  · rintro ⟨state, delay, own, other⟩
    exact ⟨state, delay, e.both own other⟩
  · rintro ⟨state, delay, idle⟩
    exact ⟨state, delay, idle e, idle e.peer⟩

theorem waiting_end_has_delimiter_after_message :
    ∃ s, Reaches Pair.step Uncrossed (attached (fun _ => 1) fun _ => false) s ∧
      (s.pipe .second).state = .waitingForDelimiter ∧
      ∃ y, s.queue .second (s.pipe .second).inPipe = some (.normal y) ∧
        .initDelimiter ∈ y.unread := by
  obtain ⟨s, reached, test⟩ := exists_reaches Pair.step Uncrossed
    (attached (fun _ => 1) fun _ => false)
    [(.first, .write {} true), (.first, .flush), (.first, .terminate true true),
      (.second, .deliver)] (waitsIdle · .second = true) (by decide)
  obtain ⟨waiting, -, idle⟩ := waitsIdle_iff.mp test
  obtain ⟨y, here, member, -⟩ := waiting_end_has_delimiter _ reached .second waiting idle
  exact ⟨s, reached, waiting, y, here, member⟩

private def withoutDelimiter : Option Upipe → Bool
  | some (.normal y) => y.unread.all (!·.isDelimiter)
  | _ => false

/-- The first end reconnects while the second terminates. The second drops the
    queue with its delimiter when the hiccup comes; the first learns of the
    request and waits on an empty queue, with nothing in flight. -/
theorem crossed_hiccup_loses_delimiter :
    ∃ s, Reaches Pair.step Plain (attached (fun _ => 1) fun _ => false) s ∧
      (s.pipe .first).state = .waitingForDelimiter ∧ (s.pipe .first).delay = true ∧
      (∀ x, s.mailbox x = []) ∧
      ∀ y, s.queue .first (s.pipe .first).inPipe = some (.normal y) →
        ∀ m ∈ y.unread, m.isDelimiter = false := by
  obtain ⟨s, reached, idles, test⟩ := exists_reaches Pair.step Plain
    (attached (fun _ => 1) fun _ => false)
    [(.first, .hiccup), (.second, .terminate true true), (.second, .deliver), (.first, .deliver)]
    (fun s => s.waitsIdle .first = true ∧
      withoutDelimiter (s.queue .first (s.pipe .first).inPipe) = true) (by decide)
  obtain ⟨waiting, delay, idle⟩ := waitsIdle_iff.mp idles
  refine ⟨s, reached, waiting, delay, idle, fun y here => ?_⟩
  simpa [here, withoutDelimiter] using test

end Pair

end Zmq
