import Zmq.Pipe.Flow

/-! # Fixed watermarks

The reader reports every `(h + 1) / 2` messages, so between two reports the writer
always has credit left: with a fixed high watermark flow control neither overruns
nor deadlocks. The sum must fit into an `int` for that, and the two ends must count the
same frames. They do not agree on credentials, which the writer counts and the reader drops.
-/

namespace Zmq

open Lib

namespace Pipe

theorem computeLwm_bounds {hwm : Int} (pos : 0 < hwm) (small : hwm < 2 ^ 31 - 1) :
    0 < computeLwm hwm ∧ computeLwm hwm ≤ hwm := by
  rw [computeLwm, int_eq_self (by omega) (by omega), Int.tdiv_eq_ediv_of_nonneg (by omega)]
  omega

theorem gap {p r : Pipe} (marks : 0 < p.hwm → 0 < r.lwm ∧ r.lwm ≤ p.hwm) :
    Credit.Gap p.limit r.due := by
  intro H same n
  obtain ⟨pos, rfl⟩ : 0 < p.hwm ∧ p.hwm.toNat = H := by simpa [limit] using same
  obtain ⟨low, le⟩ := marks pos
  refine ⟨n + untilDue (2 ^ 64) r.lwm.toNat n, ?_, ?_, low, ?_⟩
  · have := untilDue_pos (M := 2 ^ 64) (L := r.lwm.toNat) (by decide) (by omega) n
    omega
  · have := untilDue_le (2 ^ 64) r.lwm.toNat n
    omega
  · exact untilDue_due (by decide) (by omega) n

end Pipe

namespace Pair

/-- The calls and deliveries that move messages to `e`, and the hiccups of an end that
    reconnects. -/
def moves (e : End) : End × Action → Bool
  | (_, .checkRead) | (_, .read) | (_, .checkWrite) | (_, .rollback) | (_, .flush)
  | (_, .deliver) => true
  | (_, .write m _) => !m.isDelimiter
  | (x, .hiccup) => decide (x = e.peer)
  | _ => false

def leaks (e : End) : End × Action → Bool
  | (x, .write m _) => decide (x = e.peer) && m.leaks
  | _ => false

def Pushes (e : End) (s : Pair) (a : End × Action) : Prop := s.CanAct a ∧ moves e a = true
  deriving Decidable

def Feeds (e : End) (s : Pair) (a : End × Action) : Prop := s.Pushes e a ∧ leaks e a = false
  deriving Decidable

variable {s t : Pair} {e x : End} {a : Action} {y : Ypipe Msg} {c : Credit} {hwms : End → Int}
  {h : Int}

theorem steady_of_moves (moves : moves e (x, a) = true) : steady e (x, a) = true := by
  cases a <;> first | rfl | exact moves

theorem still_of_moves (moves : moves e (x, a) = true) : a.tunes = false := by
  cases a <;> first | rfl | cases moves

/-- A direction whose writer cannot be blocked for good. -/
structure Live (s : Pair) (e : End) (y : Ypipe Msg) (c : Credit) : Prop where
  flowing : s.Flowing e y c
  gap : Credit.Gap (s.pipe e.peer).limit (s.pipe e).due
  fed : c.Fed (s.pipe e.peer).limit (s.pipe e).due
  woken : c.Woken (s.pipe e).due

theorem limit_of_marks (same : (t.pipe x).hwm = (s.pipe x).hwm) :
    (t.pipe x).limit = (s.pipe x).limit := by
  rw [Pipe.limit, Pipe.limit, same]

theorem due_of_marks (same : (t.pipe x).lwm = (s.pipe x).lwm) :
    (t.pipe x).due = (s.pipe x).due := by
  funext n
  rw [Pipe.due, Pipe.due, same]

theorem Live.step (live : s.Live e y c) (can : s.CanAct (x, a)) (steady : steady e (x, a) = true)
    (still : a.tunes = false) (settled : s.Settled) (taken : s.step (x, a) = .ok t) :
    ∃ y' c', t.Live e y' c' ∧ Credit.Step (2 ^ 64) (s.pipe e.peer).limit (s.pipe e).due c c' := by
  obtain ⟨flowing, gap, fed, woken⟩ := live
  have marks := (flowing.outcome can taken).marks still settled
  have limits := limit_of_marks (marks e.peer).1
  have dues := due_of_marks (marks e).2
  obtain ⟨y', c', flowing', moved⟩ := flowing.step can steady taken
  refine ⟨y', c', ⟨flowing', ?_, ?_, ?_⟩, moved⟩
  · rw [limits, dues]
    exact gap
  · rw [limits, dues]
    exact moved.fed gap fed
  · rw [dues]
    exact moved.woken flowing.tracks.ordered fed woken

theorem Live.ready (live : s.Live e y c) (quiet : s.mailbox e.peer = []) (drained : y.Drained)
    (none_leaks : ∀ m ∈ y.items, m.leaks = false) :
    (s.pipe e.peer).outActive = true ∧ (s.pipe e.peer).checkHwm = true :=
  live.flowing.tracks.ready live.flowing.sound quiet drained none_leaks live.fed live.woken

/-- The watermarks of the direction that `e` reads are those for the limit `h`. -/
structure Marked (h : Int) (s : Pair) (e : End) : Prop where
  hwm : (s.pipe e.peer).hwm = h
  lwm : (s.pipe e).lwm = Pipe.computeLwm h

theorem Marked.limit_iff (marked : s.Marked h e) {H : Nat} :
    (s.pipe e.peer).limit = some H ↔ 0 < h ∧ h.toNat = H := by
  simp [Pipe.limit, marked.hwm]

theorem Marked.gap (marked : s.Marked h e) (small : h < 2 ^ 31 - 1) :
    Credit.Gap (s.pipe e.peer).limit (s.pipe e).due := by
  apply Pipe.gap
  rw [marked.hwm, marked.lwm]
  exact fun pos => Pipe.computeLwm_bounds pos small

theorem Marked.outcome (marked : s.Marked h e) (still : a.tunes = false) (settled : s.Settled)
    (outcome : Outcome s x a t) : t.Marked h e := by
  have marks := outcome.marks still settled
  exact ⟨by rw [(marks _).1, marked.hwm], by rw [(marks _).2, marked.lwm]⟩

theorem attached_marked (hwms : End → Int) (e : End) :
    (attached hwms fun _ => false).Marked (hwms e.peer) e := ⟨rfl, rfl⟩

theorem attached_live (hwms : End → Int) (e : End) (small : hwms e.peer < 2 ^ 31 - 1) :
    (attached hwms fun _ => false).Live e .new
      { written := 0, taken := 0, known := 0, reports := [], awake := true } where
  flowing := attached_flowing hwms e
  gap := (attached_marked hwms e).gap small
  fed := ((attached_marked hwms e).gap small).fed rfl
  woken := .inl rfl

structure Credited (h : Int) (s : Pair) (e : End) (y : Ypipe Msg) (c : Credit) : Prop where
  live : s.Live e y c
  marked : s.Marked h e
  settled : s.Settled
  bounded : c.Bounded h.toNat

theorem Credited.step (credited : s.Credited h e y c) (pos : 0 < h) (small : h < 2 ^ 31 - 1)
    (can : s.Pushes e (x, a)) (taken : s.step (x, a) = .ok t) : ∃ y' c', t.Credited h e y' c' := by
  obtain ⟨live, marked, settled, bounded⟩ := credited
  have outcome := live.flowing.outcome can.1 taken
  have still := still_of_moves can.2
  obtain ⟨y', c', live', moved⟩ :=
    live.step can.1 (steady_of_moves can.2) still settled taken
  rw [marked.limit_iff.mpr ⟨pos, rfl⟩] at moved
  exact ⟨y', c', live', marked.outcome still settled outcome, outcome.settled still settled,
    moved.bounded (by omega) live.flowing.tracks.ordered bounded⟩

theorem Pushes.credited (pos : 0 < hwms e.peer) (small : hwms e.peer < 2 ^ 31 - 1)
    (reached : Reaches Pair.step (Pushes e) (attached hwms fun _ => false) s) :
    ∃ y c, s.Credited (hwms e.peer) e y c := by
  refine reached.invariant (P := fun s => ∃ y c, s.Credited (hwms e.peer) e y c)
    ⟨_, _, attached_live hwms e small, attached_marked hwms e, fun _ _ _ => nofun, by simp, Nat.zero_le _⟩
    ?_
  rintro s ⟨x, a⟩ t ⟨y, c, credited⟩ can taken
  exact credited.step pos small can taken

/-- No frame on its way to `e` is counted by its writer only. -/
def Even (e : End) (s : Pair) : Prop := s.Carried fun x m => x = e → m.leaks = false

theorem attached_even (hwms : End → Int) (e : End) : (attached hwms fun _ => false).Even e := by
  intro x k q found
  obtain rfl := new_of_attached found
  simp

theorem Feeds.even (pos : 0 < hwms e.peer) (small : hwms e.peer < 2 ^ 31 - 1)
    (reached : Reaches Pair.step (Feeds e) (attached hwms fun _ => false) s) : s.Even e := by
  suffices both : Reaches Pair.step (Pushes e) (attached hwms fun _ => false) s ∧ s.Even e from both.2
  refine reached.invariant (P := fun s => Reaches _ (Pushes e) _ s ∧ s.Even e)
    ⟨.start, attached_even hwms e⟩ ?_
  rintro s ⟨x, a⟩ t ⟨before, even⟩ ⟨can, none_leaks⟩ taken
  obtain ⟨y, c, credited⟩ := Pushes.credited pos small before
  refine ⟨before.next can taken, Carried.outcome even (credited.live.flowing.outcome can.1 taken) ?_⟩
  intro m incomplete put reader
  cases a with
  | write k lock =>
    obtain ⟨rfl, -⟩ := put
    simpa [leaks, ← reader] using none_leaks
  | terminate | sendDisconnectMsg => cases can.2
  | _ => cases put

/-- With a fixed watermark `h` neither overrun nor deadlock: at most `h` complete
    messages are written and not read, and when nothing is in flight, everything is
    flushed and the reader has caught up, the writer is active and below the limit. -/
theorem fixed_hwm_is_safe_and_live (hwms : End → Int) (e : End) (pos : 0 < hwms e.peer)
    (small : hwms e.peer < 2 ^ 31 - 1) {s : Pair}
    (reached : Reaches Pair.step (Feeds e) (attached hwms fun _ => false) s) :
    ∃ y, s.queue e (s.pipe e).inPipe = some (.normal y) ∧
      y.backlog ≤ (hwms e.peer).toNat ∧
      ((∀ x, s.mailbox x = []) → y.Drained →
        (s.pipe e.peer).outActive = true ∧ (s.pipe e.peer).checkHwm = true) := by
  have even := Feeds.even pos small reached
  obtain ⟨y, c, credited⟩ := Pushes.credited pos small (reached.mono fun _ _ => And.left)
  have tracks := credited.live.flowing.tracks
  have none_leaks : ∀ m ∈ y.items, m.leaks = false :=
    fun m member => even _ _ _ tracks.queue m member rfl
  refine ⟨y, tracks.queue, ?_, fun quiet drained => ?_⟩
  · have ahead := credited.bounded.backlog tracks.ordered
    have split := y.written_of_no_leaks none_leaks
    rw [tracks.written, tracks.taken] at ahead
    omega
  · exact credited.live.ready (quiet _) drained none_leaks

/-- Nothing is in flight and the direction that `e` reads through its first queue is
    drained. -/
def rests (s : Pair) (e : End) : Bool :=
  (s.mailbox .first).isEmpty && (s.mailbox .second).isEmpty &&
    match s.queue e (s.pipe e).inPipe with
    | some (.normal y) => decide y.Drained
    | _ => false

theorem rests_iff : s.rests e = true ↔ (∀ x, s.mailbox x = []) ∧
    ∃ y, s.queue e (s.pipe e).inPipe = some (.normal y) ∧ y.Drained := by
  unfold rests
  rw [Bool.and_eq_true, Bool.and_eq_true, List.isEmpty_iff, List.isEmpty_iff]
  refine and_congr ⟨fun both x => ?_, fun all => ⟨all _, all _⟩⟩ ?_
  · cases x with
    | first => exact both.1
    | second => exact both.2
  · split
    · rename_i y here
      simp [here]
    · rename_i other
      constructor
      · nofun
      · rintro ⟨y, here, -⟩
        exact absurd here (other y)

theorem fixed_hwm_is_safe_and_live_when_filled :
    ∃ s, Reaches Pair.step (Feeds .second) (attached (fun _ => 2) fun _ => false) s ∧
      s.rests .second = true ∧ (s.pipe .first).msgsWritten = 2 ∧
      (s.pipe .first).outActive = true ∧ (s.pipe .first).checkHwm = true := by
  refine exists_run_and₂
    [(.first, .write {} true), (.first, .write {} true), (.first, .write {} true),
      (.first, .flush), (.second, .read), (.second, .read), (.second, .read), (.first, .deliver),
      (.first, .deliver)]
    (by decide) fun s reached rest _ => ?_
  obtain ⟨y, here, -, live⟩ :=
    fixed_hwm_is_safe_and_live (fun _ => 2) .second (by decide) (by decide) reached
  obtain ⟨quiet, y', here', drained⟩ := rests_iff.mp rest
  obtain rfl : y = y' := by simpa [here] using here'
  exact live quiet drained

/-- What a pair has done for the direction that `e` reads are steps of the flow control with the limit
    of its writer and the reports of its reader, both as they were at first. -/
def FollowsCredit (hwms : End → Int) (e : End) (s : Pair) : Prop :=
  ∃ y c, s.Tracks e y c ∧ Relation.ReflTransGen
    (Credit.Step (2 ^ 64) ((attached hwms fun _ => false).pipe e.peer).limit
      ((attached hwms fun _ => false).pipe e).due)
    { written := 0, taken := 0, known := 0, reports := [], awake := true } c

/-- With fixed watermarks, limited or not, every run of a pair is a run of the flow control in each
    direction. -/
theorem fixed_hwm_follows_credit (hwms : End → Int) (e : End) {s : Pair}
    (reached : Reaches Pair.step (Pushes e) (attached hwms fun _ => false) s) :
    s.FollowsCredit hwms e := by
  have start := attached_marked hwms e
  obtain ⟨y, c, flowing, -, -, steps⟩ := reached.invariant
    (P := fun s => ∃ y c, s.Flowing e y c ∧ s.Marked (hwms e.peer) e ∧ s.Settled ∧
      Relation.ReflTransGen _ _ c)
    ⟨_, _, attached_flowing hwms e, start, fun _ _ _ => nofun, .refl⟩ (by
      rintro s ⟨x, a⟩ t ⟨y, c, flowing, marked, settled, steps⟩ can taken
      have outcome := flowing.outcome can.1 taken
      have still := still_of_moves can.2
      obtain ⟨y', c', flowing', moved⟩ := flowing.step can.1 (steady_of_moves can.2) taken
      rw [limit_of_marks (marked.hwm.trans start.hwm.symm),
        due_of_marks (marked.lwm.trans start.lwm.symm)] at moved
      exact ⟨y', c', flowing', marked.outcome still settled outcome,
        outcome.settled still settled, steps.tail moved⟩)
  exact ⟨y, c, flowing.tracks, steps⟩

theorem fixed_hwm_follows_credit_when_filled :
    ∃ s, Reaches Pair.step (Pushes .second) (attached (fun _ => 1) fun _ => false) s ∧
      (s.pipe .first).outActive = false ∧ s.FollowsCredit (fun _ => 1) .second :=
  exists_run_and
    [(.first, .write {} true), (.first, .write {} true), (.first, .flush), (.second, .read)]
    (by decide) fun _ reached _ => fixed_hwm_follows_credit _ _ reached

/-! ## The largest watermark -/

/-- A queue that has passed on `n` messages one by one, and has not slept. -/
structure Passed (n : Nat) (y : Ypipe Msg) : Prop where
  length : y.items.length = n
  front : y.front = n
  awake : y.c ≠ none

theorem Passed.level {n : Nat} {y : Ypipe Msg} (passed : Passed n y) : y.front = y.w ∧ y.w = y.f := by
  obtain ⟨length, front, -⟩ := passed
  have := y.front_le_w
  have := y.w_le_f
  have := y.f_le_back
  omega

theorem Passed.next {n : Nat} {y : Ypipe Msg} (passed : Passed n y) :
    (y.write {} false).flush.1 = true ∧
      ∃ y', Upipe.readData (Upipe.pending (.normal (y.write {} false).flush.2))
        (.normal (y.write {} false).flush.2) = (some {}, .normal y') ∧ Passed (n + 1) y' := by
  obtain ⟨length, front, awake⟩ := passed
  generalize flushed : (y.write {} false).flush = z
  have left : z.2.front < z.2.w := by simp [← flushed, length, front]
  obtain ⟨value, next, same⟩ := Ypipe.read_of_lt left
  have c : z.2.c ≠ none := by
    rw [← flushed, Ypipe.flush_c]
    split <;> simp [awake]
  have head : z.2.read.1 = some {} := by
    rw [value]
    simp [← flushed, front, ← length]
  refine ⟨?_, z.2.read.2, ?_, ?_, ?_, ?_⟩
  · rw [← flushed, ← Bool.not_eq_false, Ypipe.flush_false_iff]
    simp [awake]
  · obtain ⟨k, count⟩ : ∃ k, z.2.w - z.2.front = k + 1 := ⟨z.2.w - z.2.front - 1, by omega⟩
    rw [Upipe.pending, count, Upipe.readData, Upipe.read, head]
    rfl
  · simp [← flushed, length]
  · rw [next, ← flushed]
    simp [front]
  · rw [same]
    exact c

/-- After `n` messages, each written, flushed and read before the next. -/
structure Rounds (n : Nat) (s : Pair) : Prop where
  reached : Reaches Pair.step (Feeds .second) (attached (fun _ => 2 ^ 31 - 1) fun _ => false) s
  writer : s.pipe .first =
    { (attached (fun _ => 2 ^ 31 - 1) fun _ => false).pipe .first with msgsWritten := .ofNat n }
  reader : s.pipe .second =
    { (attached (fun _ => 2 ^ 31 - 1) fun _ => false).pipe .second with msgsRead := .ofNat n }
  mailbox : s.mailbox = fun _ => []
  queue : ∃ y, s.queue .second 0 = some (.normal y) ∧ Passed n y

theorem Rounds.next {n : Nat} {s : Pair} (rounds : Rounds n s) (room : n < 2 ^ 31 - 1) :
    ∃ t, Rounds (n + 1) t := by
  obtain ⟨reached, writer, reader, mailbox, y, here, passed⟩ := rounds
  obtain ⟨awake, y', read, passed'⟩ := passed.next
  have fits : (s.pipe .first).checkHwm = true := by
    rw [writer, Pipe.checkHwm_iff]
    simp [attached, pipepair, Pipe.new, Pipe.limit]
    omega
  have fresh : (s.pipe .first).outActive = true ∧ (s.pipe .first).state = .active ∧
      (s.pipe .first).outPipe = some 0 ∧ (s.pipe .first).deleted = false := by
    simp [writer, attached, pipepair, Pipe.new]
  have idle : (s.pipe .second).readable = true ∧ (s.pipe .second).inPipe = 0 ∧
      ((s.pipe .second).countRead {}).reports = false ∧ (s.pipe .second).deleted = false := by
    rw [reader]
    exact ⟨rfl, rfl, rfl, rfl⟩
  let written := (s.setQueue .second 0 (some (.normal (y.write {} false)))).setPipe .first
    ((s.pipe .first).countWritten {})
  have wrote : s.step (.first, .write {} true) = .ok written := by
    simp [Pair.step, Pair.write, checkWrite, fits, fresh, deref, here, End.peer, Upipe.write,
      Except.map, written, Msg.more]
  let sent := written.setQueue .second 0 (some (.normal (y.write {} false).flush.2))
  have flushed : written.step (.first, .flush) = .ok sent := by
    simp [Pair.step, Pair.flush, written, fresh, deref, End.peer, Upipe.flush, awake, sent]
  let got := (sent.setQueue .second 0 (some (.normal y'))).setPipe .second
    ((s.pipe .second).countRead {})
  have same : written.pipe .second = s.pipe .second := by simp [written, setPipe]
  have taken : sent.step (.second, .read) = .ok got := by
    simp [Pair.step, Pair.read, same, idle, deref, sent, read, acceptRead, Except.map, got,
      Msg.isDelimiter]
  refine ⟨got, ((reached.next ?_ wrote).next ?_ flushed).next ?_ taken, ?_, ?_, ?_, y', ?_, passed'⟩
  · exact ⟨⟨by simp [CanAct, fresh], rfl⟩, rfl⟩
  · exact ⟨⟨by simp [CanAct, written, fresh], rfl⟩, rfl⟩
  · exact ⟨⟨by simp [CanAct, sent, same, idle], rfl⟩, rfl⟩
  · have kept : got.pipe .first = (s.pipe .first).countWritten {} := by
      simp [got, sent, written, setPipe]
    rw [kept, writer, Pipe.countWritten, if_pos (by decide), UInt64.ofNat_add]
    rfl
  · rw [setPipe_self, reader, Pipe.countRead, if_pos (by decide), UInt64.ofNat_add]
    rfl
  · simp [got, sent, written, mailbox]
  · simp [got]

theorem exists_rounds : ∀ n ≤ 2 ^ 31 - 1, ∃ s, Rounds n s
  | 0, _ => ⟨_, .start, rfl, rfl, rfl, .new, rfl, rfl, rfl, nofun⟩
  | n + 1, le => by
    obtain ⟨s, rounds⟩ := exists_rounds n (by omega)
    exact rounds.next (by omega)

/-- With the largest watermark the low one overflows and no report is ever sent: after as many
    messages, all of them read, the writer is blocked for good. -/
theorem largest_hwm_blocks_writer :
    ∃ s, Reaches Pair.step (Feeds .second) (attached (fun _ => 2 ^ 31 - 1) fun _ => false) s ∧
      s.rests .second = true ∧ (s.pipe .second).inActive = false ∧
      (s.pipe .first).msgsWritten = 2 ^ 31 - 1 ∧ (s.pipe .second).msgsRead = 2 ^ 31 - 1 ∧
      (s.pipe .first).checkHwm = false := by
  obtain ⟨s, reached, writer, reader, mailbox, y, here, passed⟩ := exists_rounds (2 ^ 31 - 1) le_rfl
  have level := passed.level
  have dry : Upipe.readData (Upipe.pending (.normal y)) (.normal y) = (none, .normal y.read.2) := by
    rw [Upipe.pending, level.1, Nat.sub_self, Upipe.readData, Upipe.read, (Ypipe.read_of_eq level.1).1]
  have idle : (s.pipe .second).readable = true ∧ (s.pipe .second).inPipe = 0 ∧
      (s.pipe .second).deleted = false := by
    rw [reader]
    exact ⟨rfl, rfl, rfl⟩
  let t := (s.setQueue .second 0 (some (.normal y.read.2))).setPipe .second
    { s.pipe .second with inActive := false }
  have taken : s.step (.second, .read) = .ok t := by
    simp [Pair.step, Pair.read, idle, deref, here, dry, Except.map, t]
  have kept : t.pipe .first = s.pipe .first := by simp [t, setPipe]
  refine ⟨t, reached.next ⟨⟨by simp [CanAct, idle], rfl⟩, rfl⟩ taken, ?_, ?_, ?_, ?_, ?_⟩
  · refine rests_iff.mpr ⟨by simp [t, mailbox], y.read.2, by simp [t, idle], ?_, ?_⟩
    · simp [level]
    · simp [(Ypipe.read_of_eq level.1).2.1, level]
  · simp [t]
  · rw [kept, writer]
    rfl
  · rw [setPipe_self, reader]
    rfl
  · rw [kept, writer]
    rfl

/-! ## Credentials -/

theorem msgsWritten_of_rests (pos : 0 < hwms e.peer) (small : hwms e.peer < 2 ^ 31 - 1)
    (reached : Reaches Pair.step (Pushes e) (attached hwms fun _ => false) s)
    (here : s.queue e (s.pipe e).inPipe = some (.normal y)) (drained : y.Drained) :
    (s.pipe e.peer).msgsWritten = (s.pipe e).msgsRead + .ofNat (y.items.countP Msg.leaks) := by
  obtain ⟨y', c, credited⟩ := Pushes.credited pos small reached
  have tracks := credited.live.flowing.tracks
  obtain rfl : y = y' := by simpa [here] using tracks.queue
  rw [tracks.sent, tracks.seen, tracks.written, tracks.taken,
    drained.written (credited.live.flowing.sound.tidy _ _ _ here), UInt64.ofNat_add]

/-- In every run without credential frames: at rest the writer and the reader have
    counted the same, and the writer is not blocked. -/
theorem counts_agree_at_rest (hwms : End → Int) (e : End) (pos : 0 < hwms e.peer)
    (small : hwms e.peer < 2 ^ 31 - 1) {s : Pair}
    (reached : Reaches Pair.step (Feeds e) (attached hwms fun _ => false) s)
    (rest : s.rests e = true) :
    (s.pipe e.peer).msgsWritten = (s.pipe e).msgsRead ∧ (s.pipe e.peer).checkHwm = true := by
  have even := Feeds.even pos small reached
  obtain ⟨quiet, y, here, drained⟩ := rests_iff.mp rest
  have pushes := reached.mono fun _ _ => And.left
  have none_leaks : ∀ m ∈ y.items, m.leaks = false :=
    fun m member => even _ _ _ here m member rfl
  constructor
  · rw [msgsWritten_of_rests pos small pushes here drained, Ypipe.countP_leaks_eq_zero none_leaks]
    simp
  · obtain ⟨y', c, credited⟩ := Pushes.credited pos small pushes
    have tracks := credited.live.flowing.tracks
    obtain rfl : y = y' := by simpa [here] using tracks.queue
    exact (credited.live.ready (quiet _) drained none_leaks).2

theorem counts_agree_at_rest_after_routing_id :
    ∃ s, Reaches Pair.step (Feeds .second) (attached (fun _ => 1) fun _ => false) s ∧
      s.rests .second = true ∧ (s.pipe .second).msgsRead = 1 ∧
      (s.pipe .first).msgsWritten = (s.pipe .second).msgsRead ∧ (s.pipe .first).checkHwm = true :=
  exists_run_and₂
    [(.first, .write { flags := MsgFlag.routingId } true), (.first, .write {} true),
      (.first, .flush), (.second, .read), (.second, .read), (.first, .deliver),
      (.first, .deliver)]
    (by decide) fun _ reached rest _ =>
      counts_agree_at_rest (fun _ => 1) .second (by decide) (by decide) reached rest

/-- A credential frame alone fills a queue of one for ever: the reader drops it without
    counting it, and nothing is left that could wake the writer. -/
theorem credential_blocks_writer :
    ∃ s, Reaches Pair.step (Pushes .second) (attached (fun _ => 1) fun _ => false) s ∧
      s.rests .second = true ∧ (s.pipe .first).msgsWritten = 1 ∧ (s.pipe .second).msgsRead = 0 ∧
      (s.pipe .first).checkHwm = false :=
  exists_reaches _ _ _
    [(.first, .write { flags := MsgFlag.credential } true), (.first, .flush), (.second, .read)]
    _ (by decide)

end Pair

end Zmq
