import Zmq.Lib.Credit
import Zmq.Pipe.Frame

/-! # Flow control of a pipe

Each direction of a pair runs credit-based flow control: the writer counts the
messages it has finished, the reader those it has taken, and every multiple of
the low watermark is reported back. While both ends stay active every step of the
pair is a step of that abstract protocol, in each direction.
-/

namespace Zmq

open Lib

/-- What the writer counts: the last frame of a message that is no routing id. -/
def Msg.counts (m : Msg) : Bool := !m.more && !m.isRoutingId

/-- What the reader counts: credentials never get that far. -/
def Msg.countsRead (m : Msg) : Bool := m.counts && !m.isCredential

/-- What the writer counts and the reader does not. -/
def Msg.leaks (m : Msg) : Bool := m.counts && m.isCredential

namespace Ypipe

variable (y : Ypipe Msg)

def written : Nat := y.items.countP Msg.counts

def taken : Nat := (y.items.take y.front).countP Msg.countsRead

def backlog : Nat := (y.items.drop y.front).countP Msg.counts

theorem countP_counts (ms : List Msg) :
    ms.countP Msg.counts = ms.countP Msg.countsRead + ms.countP Msg.leaks := by
  rw [List.countP_eq_countP_filter_add _ _ Msg.isCredential, List.countP_filter,
    List.countP_filter, Nat.add_comm]
  rfl

theorem countP_leaks_eq_zero {ms : List Msg} (none_leaks : ∀ m ∈ ms, m.leaks = false) :
    ms.countP Msg.leaks = 0 := by
  apply List.countP_eq_zero.mpr
  intro m member
  simp [none_leaks m member]

theorem written_eq : y.written = y.taken + (y.items.take y.front).countP Msg.leaks + y.backlog := by
  have split := congrArg (List.countP Msg.counts) (List.take_append_drop y.front y.items)
  rw [List.countP_append, countP_counts (y.items.take y.front)] at split
  exact split.symm

theorem written_of_no_leaks (none_leaks : ∀ m ∈ y.items, m.leaks = false) :
    y.written = y.taken + y.backlog := by
  have := y.written_eq
  rwa [countP_leaks_eq_zero fun m member => none_leaks m (List.mem_of_mem_take member)] at this

theorem taken_le_written : y.taken ≤ y.written := by
  have part : y.taken ≤ (y.items.take y.front).countP Msg.counts := by
    apply List.countP_mono_left
    intro m _ both
    simp only [Msg.countsRead, Bool.and_eq_true] at both
    exact both.1
  exact Nat.le_trans part ((List.take_sublist _ _).countP_le)

theorem written_write (m : Msg) (inc : Bool) :
    (y.write m inc).written = y.written + if m.counts then 1 else 0 := by
  simp only [written, write_items, List.countP_append, List.countP_singleton]

theorem taken_write (m : Msg) (inc : Bool) : (y.write m inc).taken = y.taken := by
  rw [taken, taken, take_front_write]

variable {y y' : Ypipe Msg}

theorem countsRead_credentials {ms : List Msg} (creds : ∀ m ∈ ms, m.isCredential = true) :
    ms.countP Msg.countsRead = 0 := by
  apply List.countP_eq_zero.mpr
  intro k member
  simp [Msg.countsRead, creds k member]

theorem taken_of_dry (items : y'.items = y.items) (front : y'.front = y.w)
    (creds : ∀ m ∈ y.unread, m.isCredential = true) : y'.taken = y.taken := by
  rw [taken, taken, take_front_dry items front, List.countP_append, countsRead_credentials creds,
    Nat.add_zero]

theorem written_of_cut (items : y'.items = y.items.take y.f)
    (unfinished : Upipe.Unfinished y) : y'.written = y.written := by
  have none_counted : (y.items.drop y.f).countP Msg.counts = 0 := by
    apply List.countP_eq_zero.mpr
    intro k member
    simp [Msg.counts, unfinished k member]
  have whole := congrArg (List.countP Msg.counts) (List.take_append_drop y.f y.items)
  rw [List.countP_append, none_counted] at whole
  simpa [written, items] using whole

theorem taken_of_cut (items : y'.items = y.items.take y.f)
    (front : y'.front = y.front) : y'.taken = y.taken := by
  rw [taken, taken, take_front_cut items front]

structure Drained (y : Ypipe Msg) : Prop where
  flushed : y.w = y.f
  read : y.front = y.w

instance (y : Ypipe Msg) : Decidable y.Drained :=
  decidable_of_iff (y.w = y.f ∧ y.front = y.w)
    ⟨fun both => ⟨both.1, both.2⟩, fun drained => ⟨drained.flushed, drained.read⟩⟩

section

variable (drained : y.Drained) (tidy : Upipe.Unfinished y)
include drained tidy

theorem Drained.finished {m : Msg} (member : m ∈ y.items.drop y.front) : m.counts = false := by
  rw [drained.read, drained.flushed] at member
  simp [Msg.counts, tidy m member]

theorem Drained.backlog : y.backlog = 0 := by
  apply List.countP_eq_zero.mpr
  intro m member
  simp [drained.finished tidy member]

theorem Drained.written : y.written = y.taken + y.items.countP Msg.leaks := by
  have none_left : (y.items.drop y.front).countP Msg.leaks = 0 := by
    apply countP_leaks_eq_zero
    intro m member
    simp [Msg.leaks, drained.finished tidy member]
  have split := congrArg (List.countP Msg.leaks) (List.take_append_drop y.front y.items)
  rw [List.countP_append, none_left] at split
  have := y.written_eq
  rw [drained.backlog tidy] at this
  omega

end

end Ypipe

namespace Pipe

variable (p : Pipe)

def limit : Option Nat := if 0 < p.hwm then some p.hwm.toNat else none

def due (n : Nat) : Prop := 0 < p.lwm ∧ n % 2 ^ 64 % p.lwm.toNat = 0

theorem checkHwm_iff {p : Pipe} : p.checkHwm = true ↔
    ∀ H, p.limit = some H → (p.msgsWritten - p.peersMsgsRead).toNat < H := by
  unfold checkHwm limit
  by_cases limited : 0 < p.hwm
  · simp [limited]
  · simp [limited]

theorem checkHwm_false_iff {p : Pipe} : p.checkHwm = false ↔
    ∃ H, p.limit = some H ∧ H ≤ (p.msgsWritten - p.peersMsgsRead).toNat := by
  unfold checkHwm limit
  by_cases limited : 0 < p.hwm
  · simp [limited]
  · simp [limited]

theorem countRead_msgsRead (m : Msg) :
    (p.countRead m).msgsRead = if m.counts then p.msgsRead + 1 else p.msgsRead := by
  unfold countRead Msg.counts
  split <;> rfl

theorem countWritten_msgsWritten (m : Msg) :
    (p.countWritten m).msgsWritten = if m.counts then p.msgsWritten + 1 else p.msgsWritten := by
  unfold countWritten Msg.counts
  split <;> rfl

theorem reports_iff {p : Pipe} {n : Nat} (count : p.msgsRead = .ofNat n) :
    p.reports = true ↔ p.due n := by
  unfold reports due
  rw [count]
  simp

end Pipe

theorem sub_toNat_ofNat {a b : Nat} (le : b ≤ a) :
    (UInt64.ofNat a - UInt64.ofNat b).toNat = (a - b) % 2 ^ 64 := by
  rw [← UInt64.ofNat_sub le]
  simp

namespace Pair

def reports (s : Pair) (e : End) : List UInt64 :=
  (s.mailbox e).filterMap fun
    | .activateWrite n => some n
    | _ => none

section Reports

variable (s : Pair) (e x : End) (p : Pipe) (k : Nat) (u : Option Upipe) (b : Bool) (c : Command)

@[simp] theorem reports_setPipe : (s.setPipe x p).reports = s.reports := rfl
@[simp] theorem reports_setQueue : (s.setQueue x k u).reports = s.reports := rfl
@[simp] theorem reports_post : (s.post e c).reports e = s.reports e := by simp [reports]
@[simp] theorem reports_postIf : (s.postIf e b c).reports e = s.reports e := by simp [reports]
@[simp] theorem reports_setMailbox_peer (cs : List Command) :
    (s.setMailbox e cs).reports e.peer = s.reports e.peer := by simp [reports]

theorem reports_post_other (other : ∀ n, c ≠ .activateWrite n) :
    (s.post e c).reports e.peer = s.reports e.peer := by
  simp only [reports]
  cases c <;> simp_all

theorem reports_postIf_other (other : ∀ n, c ≠ .activateWrite n) :
    (s.postIf e b c).reports e.peer = s.reports e.peer := by
  cases b with
  | false => rfl
  | true => exact reports_post_other s e c other

theorem reports_postIf_report (n : UInt64) :
    (s.postIf e b (.activateWrite n)).reports e.peer =
      s.reports e.peer ++ if b then [n] else [] := by
  cases b with
  | false => simp
  | true => simp [reports]

end Reports

/-- The actions that keep the direction read by `e` going. Its writer may hiccup
    the other direction. -/
def steady (e : End) : End × Action → Bool
  | (x, .hiccup) => decide (x = e.peer)
  | (_, .terminate ..) | (_, .sendDisconnectMsg _) => false
  | (_, .write m _) => !m.isDelimiter
  | _ => true

variable {s t : Pair} {e x : End} {a : Action} {r : Option Msg} {m : Msg} {ev : Option Event}
  {d : Command} {q' : Upipe}

/-- No end has begun to terminate and nothing in flight asks for it. -/
structure Calm (s : Pair) (e : End) : Prop where
  active : ∀ x, (s.pipe x).state = .active
  toWriter : ∀ c ∈ s.mailbox e.peer, c.signal = .talk
  toReader : ∀ c ∈ s.mailbox e, c.signal ≠ .term ∧ c.signal ≠ .ack
  data : s.Carried fun _ m => m.isDelimiter = false

namespace Calm

theorem stays (calm : s.Calm e) (sound : s.Sound) (x : End) : (s.pipe x).deleted = false := by
  by_contra gone
  have := sound.inv.state_of_gone (e := x) (by simpa [handshake] using gone)
  simp [handshake, calm.active x] at this

theorem signals (calm : s.Calm e) {c : Command} (member : c ∈ s.mailbox x) :
    c.signal ≠ .term ∧ c.signal ≠ .ack := by
  rcases x.eq_or_peer e with rfl | rfl
  · exact calm.toReader c member
  · rw [calm.toWriter c member]
    exact ⟨nofun, nofun⟩

section

variable (calm : s.Calm e) (free : s.LockFree)
include calm free

theorem no_delimiter {k : Nat} {q : Upipe} (here : s.queue x k = some q)
    (takes : q.Takes m q') : m.isDelimiter = false :=
  calm.data _ _ _ here m (takes.mem_items (free.queue _ _ _ here))

theorem active_reading (reading : Reading s x r t) : (t.pipe x).state = .active := by
  have active := calm.active x
  cases reading with
  | closed | dry | accepted => simp [active]
  | delimiter _ here takes last => simp [calm.no_delimiter free here takes] at last
  | answered _ _ _ _ state => simp [active] at state

theorem active_outcome (steady : steady e (x, a) = true)
    (outcome : Outcome s x a t) (z : End) : (t.pipe z).state = .active := by
  rcases z.eq_or_peer x with rfl | rfl
  · have active := calm.active z
    cases outcome with
    | checked reading | read reading => exact calm.active_reading free reading
    | write how | rollback how | flush how | hiccup how =>
      cases how <;> simp [active]
    | terminate | sendDisconnectMsg => cases steady
    | deliver at_head receiving =>
      have quiet := calm.signals (x := z) (by rw [at_head]; exact List.mem_cons_self)
      cases receiving with
      | readWoken | readIgnored | writeWoken | writeNoted | published | limited | replaced =>
        simp [active, Pipe.setHwms]
      | waits | answers | crosses => exact absurd rfl quiet.1
      | leaves | answersAndLeaves => exact absurd rfl quiet.2
    | _ => simp [active, Pipe.setHwms, Pipe.setHwmsBoost]
  · rw [outcome.pipe_peer, calm.active]

theorem sends (steady : steady e (x, a) = true) (outcome : Outcome s x a t) {c : Command}
    (sent : a.Sends (t.pipe x).state c) :
    c.signal = .talk ∨ x = e.peer ∧ c.signal ≠ .term ∧ c.signal ≠ .ack := by
  rw [calm.active_outcome free steady outcome] at sent
  cases a with
  | hiccup =>
    obtain rfl : x = e.peer := by simpa [Pair.steady] using steady
    cases c with
    | hiccup => exact .inr ⟨rfl, nofun, nofun⟩
    | pipeTermAck => exact absurd rfl sent
    | _ => cases sent
  | terminate | sendDisconnectMsg => cases steady
  | _ =>
    cases c with
    | pipeTermAck => exact absurd rfl sent
    | pipeTerm | hiccup => cases sent
    | _ => exact .inl rfl

theorem outcome (steady : steady e (x, a) = true) (outcome : Outcome s x a t) : t.Calm e := by
  refine ⟨calm.active_outcome free steady outcome, fun c member => ?_, fun c member => ?_, ?_⟩
  · rcases x.eq_or_peer e with rfl | rfl
    · rcases outcome.mem_mailbox_peer member with old | sent
      · exact calm.toWriter c old
      · rcases calm.sends free steady outcome sent with talk | ⟨wrong, -⟩
        · exact talk
        · exact absurd wrong x.ne_peer
    · exact calm.toWriter c (outcome.mem_mailbox member)
  · rcases x.eq_or_peer e with rfl | rfl
    · exact calm.toReader c (outcome.mem_mailbox member)
    · have moved := outcome.mem_mailbox_peer (c := c) (by rwa [End.peer_peer])
      rw [End.peer_peer] at moved
      rcases moved with old | sent
      · exact calm.toReader c old
      · rcases calm.sends free steady outcome sent with talk | ⟨-, quiet⟩
        · rw [talk]
          exact ⟨nofun, nofun⟩
        · exact quiet
  · refine calm.data.outcome outcome fun m incomplete put => ?_
    cases a with
    | write k lock =>
      obtain ⟨rfl, -⟩ := put
      simpa [Pair.steady] using steady
    | terminate | sendDisconnectMsg => cases steady
    | _ => cases put

end

end Calm

/-- The credit of the direction that `e` reads through the queue `y`. -/
structure Tracks (s : Pair) (e : End) (y : Ypipe Msg) (c : Credit) : Prop where
  joined : (s.pipe e.peer).outPipe = some (s.pipe e).inPipe
  queue : s.queue e (s.pipe e).inPipe = some (.normal y)
  written : c.written = y.written
  taken : c.taken = y.taken
  sent : (s.pipe e.peer).msgsWritten = .ofNat c.written
  seen : (s.pipe e).msgsRead = .ofNat c.taken
  known : (s.pipe e.peer).peersMsgsRead = .ofNat c.known
  reports : s.reports e.peer = c.reports.map .ofNat
  awake : (s.pipe e.peer).outActive = c.awake
  behind : ∀ n ∈ c.known :: c.reports, n ≤ c.taken

/-- A step of the pair is a step of the flow control it stands for. -/
def Simulates (s t : Pair) (e : End) (c : Credit) : Prop :=
  ∃ y' c', t.Tracks e y' c' ∧ Credit.Step (2 ^ 64) (s.pipe e.peer).limit (s.pipe e).due c c'

namespace Tracks

variable {y : Ypipe Msg} {c : Credit} {b : Bool}

section

variable (tracks : s.Tracks e y c)
include tracks

theorem ordered : c.Ordered :=
  ⟨tracks.behind, by rw [tracks.written, tracks.taken]; exact y.taken_le_written⟩

theorem backlog :
    ((s.pipe e.peer).msgsWritten - (s.pipe e.peer).peersMsgsRead).toNat =
      (c.written - c.known) % 2 ^ 64 := by
  rw [tracks.sent, tracks.known, sub_toNat_ofNat tracks.ordered.known_le]

theorem stays : Simulates s s e c := ⟨y, c, tracks, .stay c⟩

theorem frame {y' : Ypipe Msg} (written : y'.written = y.written)
    (taken : y'.taken = y.taken) (queue : t.queue e (t.pipe e).inPipe = some (.normal y'))
    (inPipe : (t.pipe e).inPipe = (s.pipe e).inPipe)
    (seen : (t.pipe e).msgsRead = (s.pipe e).msgsRead)
    (outPipe : (t.pipe e.peer).outPipe = (s.pipe e.peer).outPipe)
    (sent : (t.pipe e.peer).msgsWritten = (s.pipe e.peer).msgsWritten)
    (known : (t.pipe e.peer).peersMsgsRead = (s.pipe e.peer).peersMsgsRead)
    (awake : (t.pipe e.peer).outActive = (s.pipe e.peer).outActive)
    (reports : t.reports e.peer = s.reports e.peer) : Simulates s t e c := by
  refine ⟨y', c, ⟨?_, queue, ?_, ?_, ?_, ?_, ?_, ?_, ?_, tracks.behind⟩, .stay c⟩
  · rw [outPipe, inPipe, tracks.joined]
  · rw [written, tracks.written]
  · rw [taken, tracks.taken]
  · rw [sent, tracks.sent]
  · rw [seen, tracks.seen]
  · rw [known, tracks.known]
  · rw [reports, tracks.reports]
  · rw [awake, tracks.awake]

theorem accept (takes : (Upipe.normal y).Takes m q')
    (data : m.isCredential = false) :
    Simulates s (((s.setQueue e (s.pipe e).inPipe (some q')).setPipe e
      ((s.pipe e).countRead m)).postIf e ((s.pipe e).countRead m).reports
        (.activateWrite ((s.pipe e).countRead m).msgsRead)) e c := by
  cases takes with
  | @normal _ y' skipped items w f _ creds split front =>
  have taken : y'.taken = y.taken + if m.counts then 1 else 0 := by
    rw [Ypipe.taken, Ypipe.take_front_takes items split front, List.countP_append,
      List.countP_append, Ypipe.countsRead_credentials creds, List.countP_singleton]
    simp [Ypipe.taken, Msg.countsRead, data]
  have written : y'.written = y.written := by simp [Ypipe.written, items]
  have seen : ((s.pipe e).countRead m).msgsRead = .ofNat y'.taken := by
    rw [Pipe.countRead_msgsRead, taken, ← tracks.taken, tracks.seen]
    split <;> simp
  have moved : c.taken ≤ y'.taken ∧ y'.taken ≤ c.taken + 1 := by
    rw [taken, ← tracks.taken]
    split <;> omega
  have within : y'.taken ≤ c.written := by
    rw [tracks.written, ← written]
    exact y'.taken_le_written
  have dueIff := Pipe.reports_iff (p := (s.pipe e).countRead m) seen
  have sameDue : ((s.pipe e).countRead m).due = (s.pipe e).due := by
    funext n
    simp [Pipe.due]
  rw [sameDue] at dueIff
  have tracked (reports : List Nat)
      (same : s.reports e.peer ++ (if ((s.pipe e).countRead m).reports then
        [((s.pipe e).countRead m).msgsRead] else []) = reports.map .ofNat)
      (behind : ∀ n ∈ c.known :: reports, n ≤ y'.taken) :
      (((s.setQueue e (s.pipe e).inPipe (some (.normal y'))).setPipe e
        ((s.pipe e).countRead m)).postIf e ((s.pipe e).countRead m).reports
          (.activateWrite ((s.pipe e).countRead m).msgsRead)).Tracks e y'
        { c with taken := y'.taken, reports := reports } := by
    refine ⟨?_, ?_, ?_, rfl, ?_, ?_, ?_, ?_, ?_, behind⟩
    · simpa using tracks.joined
    · simp
    · simp [written, tracks.written]
    · simpa using tracks.sent
    · simpa using seen
    · simpa using tracks.known
    · rw [reports_postIf_report]
      simpa using same
    · simpa using tracks.awake
  have older : ∀ n ∈ c.known :: c.reports, n ≤ y'.taken :=
    fun n member => (tracks.behind n member).trans moved.1
  -- Whether a report goes out and whether the message counts are independent.
  by_cases reports : ((s.pipe e).countRead m).reports = true
  · refine ⟨y', _, tracked (c.reports ++ [y'.taken]) (by simp [reports, tracks.reports, seen]) ?_,
      .report c _ moved.1 moved.2 within (dueIff.mp reports)⟩
    exact forall_mem_concat (l := c.known :: c.reports) older le_rfl
  · exact ⟨y', _, tracked c.reports (by simp [reports, tracks.reports]) older,
      .take c _ moved.1 moved.2 within (by rwa [← dueIff])⟩

theorem reading (calm : s.Calm e) (reading : Reading s e r t) : Simulates s t e c := by
  cases reading with
  | closed => exact tracks.stays
  | dry _ here dry =>
    rw [tracks.queue] at here
    cases here
    cases dry with
    | normal items w f front null creds =>
      exact tracks.frame (by simp [Ypipe.written, items]) (Ypipe.taken_of_dry items front creds)
        (by simp) (by simp) (by simp) (by simp) (by simp) (by simp) (by simp) (by simp)
  | accepted _ here takes data =>
    rw [tracks.queue] at here
    cases here
    exact tracks.accept takes data
  | delimiter _ here takes last =>
    rw [tracks.queue] at here
    cases here
    have := calm.data _ _ _ tracks.queue _ (takes.mem_items rfl)
    simp [this] at last
  | answered _ _ _ _ state => simp [calm.active e] at state

end

theorem reading_peer (tracks : s.Tracks e.peer y c) (calm : s.Calm e.peer)
    (reading : Reading s e r t) : Simulates s t e.peer c := by
  have queue := tracks.queue
  cases reading with
  | closed => exact tracks.stays
  | dry | delimiter | accepted => apply tracks.frame rfl rfl <;> simp [queue]
  | answered _ _ _ _ state => simp [calm.active e] at state

theorem full (tracks : s.Tracks e.peer y c) (closed : (s.pipe e).checkHwm = false) :
    Simulates s (s.setPipe e { s.pipe e with outActive := false }) e.peer c := by
  have queue := tracks.queue
  have joined := tracks.joined
  have sent := tracks.sent
  have known := tracks.known
  have reports := tracks.reports
  have backlog := tracks.backlog
  rw [End.peer_peer] at joined sent known reports backlog
  refine ⟨y, { c with awake := false }, ⟨?_, ?_, tracks.written, tracks.taken, ?_, ?_, ?_, ?_, ?_,
    tracks.behind⟩, ?_⟩
  · simpa using joined
  · simpa using queue
  · simpa using sent
  · simpa using tracks.seen
  · simpa using known
  · simpa using reports
  · simp
  · rw [End.peer_peer]
    obtain ⟨H, same, reached⟩ := Pipe.checkHwm_false_iff.mp closed
    exact .sleep c H same (by rw [← backlog]; exact reached)

theorem writing (tracks : s.Tracks e.peer y c) (writing : Writing s e m b t) :
    Simulates s t e.peer c := by
  cases writing with
  | refused => exact tracks.stays
  | full live state closed => exact tracks.full closed
  | @written q k lock live state room here found =>
    have joined := tracks.joined
    have sent := tracks.sent
    have known := tracks.known
    have reports := tracks.reports
    have backlog := tracks.backlog
    have awake := tracks.awake
    rw [End.peer_peer] at joined sent known reports backlog awake
    obtain rfl : k = (s.pipe e.peer).inPipe := by simpa [here] using joined
    rw [tracks.queue] at found
    cases found
    have counted := Ypipe.written_write y m m.more
    refine ⟨y.write m m.more, { c with written := (y.write m m.more).written },
      ⟨?_, ?_, rfl, ?_, ?_, ?_, ?_, ?_, ?_, tracks.behind⟩, ?_⟩
    · simpa using here
    · simp [Upipe.write]
    · rw [Ypipe.taken_write, tracks.taken]
    · simp only [End.peer_peer, setPipe_self, Pipe.countWritten_msgsWritten, counted,
        ← tracks.written, sent]
      split <;> simp
    · simpa using tracks.seen
    · simpa using known
    · simpa using reports
    · simpa using awake
    · rw [End.peer_peer]
      cases counts : m.counts with
      | false =>
        rw [counted, counts, ← tracks.written]
        exact .stay c
      | true =>
        rw [counted, counts, ← tracks.written]
        refine .write c (by rw [← awake, live]) ?_
        intro H same
        rw [← backlog]
        exact Pipe.checkHwm_iff.mp room H same

theorem rollingBack (tracks : s.Tracks e.peer y c) (sound : s.Sound)
    (rolling : RollingBack s e t) : Simulates s t e.peer c := by
  cases rolling with
  | skipped => exact tracks.stays
  | @cut u u' k here found cut =>
    obtain rfl : k = (s.pipe e.peer).inPipe := by simpa [here] using tracks.joined
    have tidy := sound.tidy _ _ _ tracks.queue
    rw [tracks.queue] at found
    cases found
    cases cut with
    | normal items front w f =>
      exact tracks.frame (Ypipe.written_of_cut items tidy) (Ypipe.taken_of_cut items front)
        (by simp) rfl rfl rfl rfl rfl rfl rfl

theorem flushing (tracks : s.Tracks e.peer y c) (flushing : Flushing s e t) :
    Simulates s t e.peer c := by
  cases flushing with
  | skipped => exact tracks.stays
  | @flushed q k silent here found =>
    obtain rfl : k = (s.pipe e.peer).inPipe := by simpa [here] using tracks.joined
    rw [tracks.queue] at found
    cases found
    have written : y.flush.2.written = y.written := by simp [Ypipe.written]
    have taken : y.flush.2.taken = y.taken := by simp [Ypipe.taken]
    apply tracks.frame written taken <;> simp [Upipe.flush]

theorem receiving {rest : List Command} (tracks : s.Tracks e.peer y c) (calm : s.Calm e.peer)
    (at_head : s.mailbox e = d :: rest)
    (receiving : Receiving (s.setMailbox e rest) e d ev t) : Simulates s t e.peer c := by
  have queue := tracks.queue
  have talk := calm.toWriter d (by rw [End.peer_peer, at_head]; exact List.mem_cons_self)
  have pending := tracks.reports
  simp only [End.peer_peer, Pair.reports, at_head] at pending
  -- A report moves from the mailbox into `_peers_msgs_read` and wakes the writer.
  have noted {n : UInt64} (same : d = .activateWrite n) {p : Pipe}
      (outPipe : p.outPipe = (s.pipe e).outPipe)
      (sent : p.msgsWritten = (s.pipe e).msgsWritten) (known : p.peersMsgsRead = n)
      (awake : p.outActive = true) : Simulates s ((s.setMailbox e rest).setPipe e p) e.peer c := by
    subst same
    obtain ⟨first, later, split, rfl, onward⟩ := List.map_eq_cons_iff.mp pending.symm
    refine ⟨y, { c with known := first, reports := later, awake := true },
      ⟨?_, ?_, tracks.written, tracks.taken, ?_, ?_, ?_, ?_, ?_, ?_⟩, .deliver c first later split⟩
    · simpa [outPipe] using tracks.joined
    · simpa using queue
    · simpa [sent] using tracks.sent
    · simpa using tracks.seen
    · simpa using known
    · simpa [Pair.reports] using onward.symm
    · simpa using awake
    · intro k member
      exact tracks.behind k (by rw [split]; exact List.mem_cons_of_mem _ member)
  cases receiving with
  | readWoken | readIgnored | published | limited =>
    apply tracks.frame rfl rfl <;> simp [queue, Pipe.setHwms, Pair.reports, at_head]
  | writeWoken live state => exact noted rfl rfl rfl rfl rfl
  | writeNoted awake =>
    refine noted rfl rfl rfl rfl ?_
    rcases awake with awake | idle
    · exact awake
    · exact absurd (calm.active e) idle
  | _ => cases talk

theorem receiving_peer {rest : List Command} (tracks : s.Tracks e y c) (calm : s.Calm e)
    (at_head : s.mailbox e = d :: rest)
    (receiving : Receiving (s.setMailbox e rest) e d ev t) : Simulates s t e c := by
  have queue := tracks.queue
  have quiet := calm.signals (x := e) (c := d) (by rw [at_head]; exact List.mem_cons_self)
  cases receiving with
  | readWoken | readIgnored | writeWoken | writeNoted | published | limited | replaced =>
    apply tracks.frame rfl rfl <;> simp [queue, Pipe.setHwms]
  | waits | answers | crosses => exact absurd rfl quiet.1
  | leaves | answersAndLeaves => exact absurd rfl quiet.2

theorem outcome (tracks : s.Tracks e y c) (sound : s.Sound) (calm : s.Calm e)
    (steady : steady e (x, a) = true) (outcome : Outcome s x a t) : Simulates s t e c := by
  have queue := tracks.queue
  rcases e.eq_or_peer x with rfl | rfl
  · cases outcome with
    | peeked _ here peeked =>
      rw [tracks.queue] at here
      cases here
      cases peeked with
      | @normal _ y' items w f front =>
        have written : y'.written = y.written := by simp [Ypipe.written, items]
        have taken : y'.taken = y.taken := by simp [Ypipe.taken, items, front]
        exact tracks.frame written taken (by simp) rfl rfl rfl rfl rfl rfl rfl
    | checked reading | read reading => exact tracks.reading calm reading
    | write writing => cases writing <;> apply tracks.frame rfl rfl <;> simp [queue]
    | rollback rolling => cases rolling <;> apply tracks.frame rfl rfl <;> simp [queue]
    | flush flushing =>
      cases flushing <;> apply tracks.frame rfl rfl <;> simp [queue, reports_postIf_other]
    | hiccup => simp [Pair.steady] at steady
    | terminate | sendDisconnectMsg => cases steady
    | deliver at_head receiving => exact tracks.receiving_peer calm at_head receiving
    | writable | full | setNodelay | setHwms | setHwmsBoost | setDisconnectMsg =>
      apply tracks.frame rfl rfl <;> simp [queue, Pipe.setHwms, Pipe.setHwmsBoost]
    | sendHwmsToPeer | sendStatsToPeer =>
      apply tracks.frame rfl rfl <;> simp [queue, reports_post_other]
  · cases outcome with
    | checked reading | read reading => exact tracks.reading_peer calm reading
    | write writing => exact tracks.writing writing
    | rollback rolling => exact tracks.rollingBack sound rolling
    | flush flushing => exact tracks.flushing flushing
    | hiccup hiccuping =>
      cases hiccuping <;> apply tracks.frame rfl rfl <;> simp [queue]
    | terminate | sendDisconnectMsg => cases steady
    | deliver at_head receiving => exact tracks.receiving calm at_head receiving
    | full _ _ closed => exact tracks.full closed
    | _ =>
      apply tracks.frame rfl rfl <;> simp [queue, Pipe.setHwms, Pipe.setHwmsBoost]

theorem ready (tracks : s.Tracks e y c) (sound : s.Sound) (quiet : s.mailbox e.peer = [])
    (drained : y.Drained) (none_leaks : ∀ m ∈ y.items, m.leaks = false)
    (fed : c.Fed (s.pipe e.peer).limit (s.pipe e).due) (woken : c.Woken (s.pipe e).due) :
    (s.pipe e.peer).outActive = true ∧ (s.pipe e.peer).checkHwm = true := by
  have level : c.taken = c.written := by
    have := drained.written (sound.tidy _ _ _ tracks.queue)
    rw [Ypipe.countP_leaks_eq_zero none_leaks] at this
    rw [tracks.taken, tracks.written, this, Nat.add_zero]
  have none_left : c.reports = [] := by
    have := tracks.reports
    rw [Pair.reports, quiet] at this
    exact List.map_eq_nil_iff.mp this.symm
  obtain ⟨awake, room⟩ := Credit.ready (M := 2 ^ 64) tracks.ordered fed woken level none_left
  refine ⟨by rw [tracks.awake, awake], Pipe.checkHwm_iff.mpr fun H same => ?_⟩
  rw [tracks.backlog]
  exact room H same

end Tracks

/-- All that a steady run keeps about the direction that `e` reads. -/
structure Flowing (s : Pair) (e : End) (y : Ypipe Msg) (c : Credit) : Prop where
  sound : s.Sound
  free : s.LockFree
  calm : s.Calm e
  tracks : s.Tracks e y c

namespace Flowing

variable {y : Ypipe Msg} {c : Credit}

theorem outcome (flowing : s.Flowing e y c) (can : s.CanAct (x, a))
    (taken : s.step (x, a) = .ok t) : Outcome s x a t := by
  refine flowing.sound.outcome can (fun _ => ?_) taken
  exact silent_of_state (flowing.calm.stays flowing.sound x) (by simp [flowing.calm.active x])

theorem step (flowing : s.Flowing e y c) (can : s.CanAct (x, a)) (steady : steady e (x, a) = true)
    (taken : s.step (x, a) = .ok t) : ∃ y' c', t.Flowing e y' c' ∧
      Credit.Step (2 ^ 64) (s.pipe e.peer).limit (s.pipe e).due c c' := by
  have outcome := flowing.outcome can taken
  obtain ⟨y', c', tracks, moved⟩ := flowing.tracks.outcome flowing.sound flowing.calm steady outcome
  exact ⟨y', c', ⟨outcome.sound flowing.sound can, flowing.free.outcome outcome,
    flowing.calm.outcome flowing.free steady outcome, tracks⟩, moved⟩

end Flowing

theorem attached_flowing (hwms : End → Int) (e : End) :
    (attached hwms fun _ => false).Flowing e .new
      { written := 0, taken := 0, known := 0, reports := [], awake := true } where
  sound := attached_sound hwms _
  free := attached_lockFree hwms
  calm := by
    refine ⟨fun _ => rfl, nofun, nofun, fun x k q found => ?_⟩
    obtain rfl := new_of_attached found
    simp
  tracks := by
    refine ⟨rfl, rfl, rfl, rfl, rfl, rfl, rfl, rfl, rfl, ?_⟩
    simp

end Pair

end Zmq
