import Zmq.Inproc.Tuning
import Zmq.Pipe.Calls
import Zmq.Pipe.Delivery
import Zmq.Pipe.Whole

/-! # Connect before bind

A socket may connect to an inproc address before anybody has bound it, and send
until it is blocked. The bind rewrites the watermarks of both pipes; nothing in it
wakes the writer. What does is the routing id at the head of the queue: reading it
takes nothing off the count, and a count of zero is always due. That fails when the
routing id is read only after the bind and the new watermarks are without limit.
-/

namespace Zmq

open Lib

namespace Ypipe

structure Greeted (y : Ypipe Msg) (m : Msg) : Prop where
  front : y.front = 0
  flushed : 0 < y.w
  head : y.items.head? = some m

variable {y y' : Ypipe Msg} {m k : Msg} {u : Upipe}

namespace Greeted

section

variable (greeted : y.Greeted m)
include greeted

theorem unread : y.unread.head? = some m := by
  have := greeted.flushed
  rw [Ypipe.unread, greeted.front, List.drop_zero, List.head?_take, if_neg (by omega),
    greeted.head]

theorem taken : y.taken = 0 := by
  simp [Ypipe.taken, greeted.front]

theorem taken_next (uncounted : m.counts = false) (items : y'.items = y.items)
    (front : y'.front = 1) : y'.taken = 0 := by
  obtain ⟨rest, split⟩ : ∃ rest, y.items = m :: rest := List.head?_eq_some_iff.mp greeted.head
  simp [Ypipe.taken, items, front, split, Msg.countsRead, uncounted]

theorem keep (front : y'.front = y.front) (flushed : y.w ≤ y'.w)
    (items : y'.items.head? = y.items.head?) : y'.Greeted m :=
  ⟨by rw [front, greeted.front], Nat.lt_of_lt_of_le greeted.flushed flushed,
    by rw [items, greeted.head]⟩

theorem write (k : Msg) (incomplete : Bool) : (y.write k incomplete).Greeted m := by
  refine greeted.keep (by simp) (by simp) ?_
  simp [greeted.head]

theorem flush : y.flush.2.Greeted m :=
  greeted.keep (by simp) (by simpa using y.w_le_f) (by simp)

theorem cut (items : y'.items = y.items.take y.f)
    (front : y'.front = y.front) (w : y'.w = y.w) : y'.Greeted m := by
  have := greeted.flushed
  have := y.w_le_f
  refine greeted.keep front (Nat.le_of_eq w.symm) ?_
  rw [items, List.head?_take, if_neg (by omega)]

theorem takes (data : m.isCredential = false) (takes : (Upipe.normal y).Takes k u) :
    k = m ∧ ∃ y', u = .normal y' ∧ y'.items = y.items ∧ y'.front = 1 := by
  cases takes with
  | @normal _ y' skipped items w f _ creds split front =>
    have head := greeted.unread
    rw [split] at head
    cases skipped with
    | nil =>
      refine ⟨by simpa using head, y', rfl, items, ?_⟩
      simpa [greeted.front] using front
    | cons first rest =>
      obtain rfl : first = m := by simpa using head
      have := creds first List.mem_cons_self
      simp [data] at this

theorem not_dry (data : m.isCredential = false) : ¬ (Upipe.normal y).Dry u := by
  intro dry
  cases dry with
  | normal items w f front null creds =>
    have := creds m (List.mem_of_head? greeted.unread)
    simp [data] at this

end

end Greeted

end Ypipe

namespace Pair

variable {s t : Pair} {e x : End} {a : Action} {y y' : Ypipe Msg} {c : Credit} {m : Msg}
  {options : Options} {r : Option Msg} {lock : Bool}

def Waits (m : Msg) (s : Pair) (e : End) : Prop :=
  ∃ y, s.queue e (s.pipe e).inPipe = some (.normal y) ∧ y.Greeted m

theorem Waits.reading (waits : s.Waits m e) (flowing : s.Flowing e y c)
    (data : m.isCredential = false) (uncounted : m.counts = false) (reading : Reading s e r t) :
    r = none ∧ t.Waits m e ∨ ((0 < (s.pipe e).lwm → t.reports e.peer ≠ []) ∧
      ∃ y', t.queue e (t.pipe e).inPipe = some (.normal y') ∧ y'.items = y.items ∧ y'.front = 1) := by
  obtain ⟨y₀, here₀, greeted⟩ := waits
  have tracks := flowing.tracks
  obtain rfl : y₀ = y := by simpa [here₀] using tracks.queue
  cases reading with
  | closed => exact .inl ⟨rfl, _, here₀, greeted⟩
  | dry _ here dry =>
    rw [here₀] at here
    cases here
    exact absurd dry (greeted.not_dry data)
  | @accepted _ _ k _ here takes =>
    rw [here₀] at here
    cases here
    obtain ⟨rfl, y', rfl, items, front⟩ := greeted.takes data takes
    refine .inr ⟨fun low => ?_, y', by simp, items, front⟩
    have zero : ((s.pipe e).countRead k).msgsRead = .ofNat 0 := by
      rw [Pipe.countRead_msgsRead, uncounted, tracks.seen, tracks.taken, greeted.taken]
      rfl
    have reports : ((s.pipe e).countRead k).reports = true :=
      (Pipe.reports_iff zero).mpr ⟨by simpa using low, by simp⟩
    rw [reports_postIf_report]
    simp [reports]
  | delimiter _ here takes last =>
    simp [flowing.calm.no_delimiter flowing.free here takes] at last
  | answered _ _ _ _ state => simp [flowing.calm.active e] at state

theorem Waits.reading_peer (waits : s.Waits m e.peer) (active : (s.pipe e).state = .active)
    (reading : Reading s e r t) : t.Waits m e.peer := by
  obtain ⟨y, here, greeted⟩ := waits
  cases reading with
  | closed | dry | accepted | delimiter => exact ⟨y, by simpa using here, greeted⟩
  | answered _ _ _ _ state => simp [active] at state

theorem Waits.outcome (waits : s.Waits m e) (flowing : s.Flowing e y c)
    (steady : steady e (e, a) = true) (data : m.isCredential = false) (uncounted : m.counts = false)
    (outcome : Outcome s e a t) : t.Waits m e ∨ (0 < (s.pipe e).lwm → t.reports e.peer ≠ []) := by
  have ⟨y₀, here₀, greeted⟩ := waits
  cases outcome with
  | peeked _ here peeked =>
    rw [here₀] at here
    cases here
    cases peeked with
    | @normal _ y' items w f front =>
      exact .inl ⟨y', by simp, greeted.keep front (Nat.le_of_eq w.symm) (by rw [items])⟩
  | checked reading | read reading =>
    exact (waits.reading flowing data uncounted reading).imp And.right And.left
  | write how | rollback how | flush how =>
    cases how <;> exact .inl ⟨y₀, by simpa using here₀, greeted⟩
  | hiccup => simp [Pair.steady] at steady
  | terminate | sendDisconnectMsg => cases steady
  | deliver at_head receiving =>
    have quiet := flowing.calm.signals (x := e) (by rw [at_head]; exact List.mem_cons_self)
    cases receiving with
    | readWoken | readIgnored | writeWoken | writeNoted | published | limited | replaced =>
      exact .inl ⟨y₀, by simpa [Pipe.setHwms] using here₀, greeted⟩
    | waits | answers | crosses => exact absurd rfl quiet.1
    | leaves | answersAndLeaves => exact absurd rfl quiet.2
  | _ =>
    exact .inl ⟨y₀, by simpa [Pipe.setHwms, Pipe.setHwmsBoost] using here₀, greeted⟩

theorem Waits.outcome_peer (waits : s.Waits m e.peer) (flowing : s.Flowing e.peer y c)
    (steady : steady e.peer (e, a) = true) (outcome : Outcome s e a t) : t.Waits m e.peer := by
  have ⟨y₀, here₀, greeted⟩ := waits
  have joined := flowing.tracks.joined
  rw [End.peer_peer] at joined
  cases outcome with
  | checked reading | read reading =>
    exact waits.reading_peer (flowing.calm.active e) reading
  | @write k _ _ _ writing =>
    cases writing with
    | refused | full => exact ⟨y₀, by simpa using here₀, greeted⟩
    | written lock _ _ _ out found =>
      obtain rfl := Option.some.inj (joined.symm.trans out)
      rw [here₀] at found
      cases found
      exact ⟨y₀.write k k.more, by simp [Upipe.write], greeted.write ..⟩
  | rollback rolling =>
    cases rolling with
    | skipped => exact ⟨y₀, here₀, greeted⟩
    | cut out found cut =>
      obtain rfl := Option.some.inj (joined.symm.trans out)
      rw [here₀] at found
      cases found
      cases cut with
      | @normal _ y' items front w f => exact ⟨y', by simp, greeted.cut items front w⟩
  | flush flushing =>
    cases flushing with
    | skipped => exact ⟨y₀, here₀, greeted⟩
    | flushed _ out found =>
      obtain rfl := Option.some.inj (joined.symm.trans out)
      rw [here₀] at found
      cases found
      exact ⟨y₀.flush.2, by simp [Upipe.flush], greeted.flush⟩
  | hiccup hiccuping => cases hiccuping <;> exact ⟨y₀, by simpa using here₀, greeted⟩
  | terminate | sendDisconnectMsg => cases steady
  | deliver at_head receiving =>
    have talk := flowing.calm.toWriter _ (by rw [End.peer_peer, at_head]; exact List.mem_cons_self)
    cases receiving with
    | readWoken | readIgnored | writeWoken | writeNoted | published | limited =>
      exact ⟨y₀, by simpa [Pipe.setHwms] using here₀, greeted⟩
    | _ => cases talk
  | _ =>
    exact ⟨y₀, by simpa [Pipe.setHwmsBoost] using here₀, greeted⟩

theorem sendRoutingId_waits {k : Nat} (sound : s.Sound) (stays : (s.pipe x).deleted = false)
    (active : (s.pipe x).state = .active) (out : (s.pipe x).outPipe = some k)
    (into : (s.pipe x.peer).inPipe = k) (empty : s.queue x.peer k = some (.normal .new))
    (sent : s.sendRoutingId x options lock = .ok t) :
    t.Waits options.routingIdMsg x.peer ∧ (t.pipe x).outActive = true := by
  obtain ⟨⟨written, mid⟩, wrote, flushed⟩ := bind_ok.mp sent
  have writing := sound.writing stays wrote
  obtain ⟨t', ends', flushing⟩ := (writing.sound sound).flush (e := x)
  cases writing with
  | refused | full => cases flushed
  | written lock' awake _ room here found =>
    obtain rfl := Option.some.inj (out.symm.trans here)
    obtain rfl := Option.some.inj (empty.symm.trans found)
    obtain rfl : t' = t := by simpa using ends'.symm.trans flushed
    cases flushing with
    | skipped idle => simp [active, out] at idle
    | flushed _ here' found' =>
      obtain rfl := Option.some.inj (out.symm.trans (by simpa using here'))
      obtain rfl : Upipe.normal (Ypipe.new.write options.routingIdMsg false) = _ := by
        simpa [Upipe.write] using found'
      have greeted : (Ypipe.new.write options.routingIdMsg false).flush.2.Greeted
          options.routingIdMsg := by
        constructor <;> simp [Ypipe.new]
      exact ⟨⟨_, by simp [into, Upipe.flush], greeted⟩, by simpa using awake⟩

theorem Marked.sendRoutingId {h : Int} {e : End} (marked : s.Marked h e) (talking : s.Talking)
    (settled : s.Settled) (sent : s.sendRoutingId x options lock = .ok t) : t.Marked h e := by
  obtain ⟨mid, wrote, flushed⟩ := sendRoutingId_steps sent
  obtain ⟨talking', settled'⟩ :=
    talking.still_step settled (by simp) (by simp [harmless]) (by rfl) wrote
  have first := talking.outcome (talking.can (by simp)) wrote
  have second := talking'.outcome (talking'.can (by simp)) flushed
  exact (marked.outcome rfl settled first).outcome rfl settled' second

end Pair

namespace Inproc

open Pair

variable {own bind : Options} {s t : Pair} {x : End} {a : Action} {lock : Bool}

structure Unbound (own : Options) (s : Pair) : Prop where
  talking : s.Talking
  settled : s.Settled
  marked : s.Marked own.sndhwm .second
  waits : s.Waits own.routingIdMsg .second
  awake : own.sndhwm = 0 → (s.pipe .first).outActive = true

theorem Unbound.step (unbound : Unbound own s) (can : s.CanAct (.first, a)) (uses : uses a = true)
    (taken : s.step (.first, a) = .ok t) : Unbound own t := by
  have harmless := harmless_of_uses uses
  have still := still_of_uses uses
  have outcome := unbound.talking.outcome can taken
  obtain ⟨y, c, flowing⟩ := unbound.talking.flowing .second
  refine ⟨unbound.talking.step can harmless taken, outcome.settled still unbound.settled,
    unbound.marked.outcome still unbound.settled outcome,
    unbound.waits.outcome_peer flowing (steady_of_harmless harmless) outcome, ?_⟩
  · intro unlimited
    obtain ⟨y', c', flowing', moved⟩ := flowing.step can (steady_of_harmless harmless) taken
    have none_limit : (s.pipe End.second.peer).limit = none := by
      simp [Pipe.limit, unbound.marked.hwm, unlimited]
    rw [none_limit] at moved
    have awake := moved.awake (by rw [← flowing.tracks.awake]; exact unbound.awake unlimited)
    rw [← flowing'.tracks.awake] at awake
    exact awake

/-- A connection after the bind: the writer will be woken, by what is there or by the
    reading of the greeting. -/
structure Bound (own : Options) (s : Pair) : Prop where
  talking : s.Talking
  settled : s.Settled
  gap : Credit.Gap (s.pipe .first).limit (s.pipe .second).due
  woken : ∃ y c, s.Flowing .second y c ∧ c.Fed (s.pipe .first).limit (s.pipe .second).due ∧
    (c.Woken (s.pipe .second).due ∨
      s.Waits own.routingIdMsg .second ∧ 0 < (s.pipe .second).lwm)

theorem Bound.step (bound : Bound own s) (can : s.CanAct (x, a)) (harmless : harmless a = true)
    (still : a.tunes = false) (taken : s.step (x, a) = .ok t) : Bound own t := by
  obtain ⟨talking, settled, gap, y, c, flowing, fed, woken⟩ := bound
  have outcome := talking.outcome can taken
  have marks := outcome.marks still settled
  have limits := limit_of_marks (marks .first).1
  have dues := due_of_marks (marks .second).2
  have steady : steady .second (x, a) = true := steady_of_harmless harmless
  obtain ⟨y', c', flowing', moved⟩ := flowing.step can steady taken
  refine ⟨talking.step can harmless taken, outcome.settled still settled, ?_, y', c', flowing', ?_,
    ?_⟩
  · rw [limits, dues]
    exact gap
  · rw [limits, dues]
    exact moved.fed gap fed
  · rw [dues, (marks .second).2]
    rcases woken with woken | ⟨waits, low⟩
    · exact .inl (moved.woken flowing.tracks.ordered fed woken)
    · cases x with
      | first => exact .inr ⟨waits.outcome_peer (e := .first) flowing steady outcome, low⟩
      | second =>
        rcases waits.outcome flowing steady (by simp) (by simp) outcome with still_waits | reported
        · exact .inr ⟨still_waits, low⟩
        · refine .inl (.inr (.inl fun none_left => reported low ?_))
          rw [flowing'.tracks.reports, none_left]
          rfl

theorem connectInternal_unbound (plain : own.conflate = false)
    (connected : connectInternal own none lock = .ok s) : Unbound own s := by
  obtain ⟨talking, settled⟩ := newPipes_talking plain none
  obtain ⟨talking', settled'⟩ := talking.sendRoutingId settled connected
  obtain ⟨y, c, flowing⟩ := talking.flowing .first
  obtain ⟨waits, awake⟩ := sendRoutingId_waits (x := .first) flowing.sound
    (flowing.calm.stays flowing.sound _) (flowing.calm.active _)
    (show ((newPipes own none).pipe .first).outPipe = some 0 by simp [newPipes, plain]; rfl)
    (by simp [newPipes, plain]; rfl) (by simp [newPipes, plain]; rfl) connected
  have marked : (newPipes own none).Marked own.sndhwm .second := by
    have fresh (hwms : End → Int) (same : hwms .first = own.sndhwm) {a b c d : Int} :
        (((attached hwms fun _ => false).setHwmsBoost .first a b).setHwmsBoost .second c d).Marked
          own.sndhwm .second := same ▸ ⟨rfl, rfl⟩
    simp only [newPipes, plain]
    exact fresh _ rfl
  exact ⟨talking', settled', marked.sendRoutingId talking settled connected, waits,
    fun _ => awake⟩

theorem joinHwms_frame (s : Pair) (bind own : Options) :
    (joinHwms s bind own).queue = s.queue ∧ (joinHwms s bind own).mailbox = s.mailbox ∧
      ∀ e, ((joinHwms s bind own).pipe e).outActive = (s.pipe e).outActive ∧
        ((joinHwms s bind own).pipe e).inPipe = (s.pipe e).inPipe := by
  unfold joinHwms
  split <;> exact ⟨rfl, rfl, fun e => by cases e <;> exact ⟨rfl, rfl⟩⟩

theorem joinHwms_talking (plain : own.conflate = false) (talking : s.Talking) (bind : Options) :
    (joinHwms s bind own).Talking := by
  simp only [joinHwms, plain]
  exact (((talking.setHwmsBoost _ _).setHwmsBoost _ _).setHwms _ _).setHwms _ _

theorem sum_eq_totalHwm (own peer : Nat) :
    (if (own : Int) ≤ 0 ∨ (peer : Int) = 0 then 0 else int (own + max (peer : Int) 0)) =
      totalHwm own (some peer) := by
  rw [totalHwm, max_eq_left (by omega)]
  split <;> split <;> omega

theorem totalHwm_comm (own peer : Nat) : totalHwm own (some peer) = totalHwm peer (some own) := by
  rw [totalHwm, totalHwm, Int.add_comm]
  split <;> split <;> omega

theorem joinHwms_marked (plain : own.conflate = false) (s : Pair) (bind : Options) :
    (joinHwms s bind own).Marked (totalHwm own.sndhwm (some bind.rcvhwm)) .second := by
  simp only [joinHwms, plain]
  constructor
  · exact sum_eq_totalHwm own.sndhwm bind.rcvhwm
  · rw [totalHwm_comm]
    exact congrArg Pipe.computeLwm (sum_eq_totalHwm bind.rcvhwm own.sndhwm)

theorem Bound.of_join {y : Ypipe Msg} (plain : own.conflate = false)
    (fits : own.sndhwm + bind.rcvhwm < 2 ^ 31 - 1) (talking : s.Talking) (settled : s.Settled)
    (here : s.queue .second (s.pipe .second).inPipe = some (.normal y)) (untaken : y.taken = 0)
    (wakes : (s.pipe .first).outActive = true ∨ s.reports .first ≠ [] ∨
      s.Waits own.routingIdMsg .second ∧ own.sndhwm ≠ 0 ∧ bind.rcvhwm ≠ 0) :
    Bound own (joinHwms s bind own) := by
  have talking' := joinHwms_talking plain talking bind
  have marked := joinHwms_marked plain s bind
  obtain ⟨queue, mailbox, pipes⟩ := joinHwms_frame s bind own
  have inPipe := (pipes .second).2
  obtain ⟨y', c, flowing⟩ := talking'.flowing .second
  have tracks := flowing.tracks
  obtain rfl : y = y' := by simpa [queue, inPipe, here] using tracks.queue
  have none_taken : c.taken = 0 := by rw [tracks.taken, untaken]
  have level : c.last = c.taken := by
    have := tracks.behind _ c.last_mem
    omega
  have small : totalHwm own.sndhwm (some bind.rcvhwm) < 2 ^ 31 - 1 := totalHwm_small fits
  have gap := marked.gap small
  refine ⟨talking', ?_, gap, y, c, flowing, gap.fed level, ?_⟩
  · intro e inhwm outhwm
    rw [mailbox]
    exact settled e inhwm outhwm
  · rcases wakes with awake | reported | ⟨waits, limits⟩
    · refine .inl (.inl ?_)
      rw [← tracks.awake, End.peer, (pipes .first).1, awake]
    · refine .inl (.inr (.inl fun none_left => reported ?_))
      have := tracks.reports
      rw [none_left, End.peer, Pair.reports, mailbox] at this
      exact this
    · refine .inr ⟨?_, ?_⟩
      · obtain ⟨y₀, found, greeted⟩ := waits
        exact ⟨y₀, by rw [queue, inPipe, found], greeted⟩
      · rw [marked.lwm]
        refine (Pipe.computeLwm_bounds ?_ small).1
        rw [totalHwm_eq fits, if_pos limits]
        omega

theorem Bound.offerRoutingId {wanted : Bool} (bound : Bound own s)
    (sent : s.offerRoutingId x wanted bind lock = .ok t) : Bound own t := by
  cases wanted with
  | false =>
    cases sent
    exact bound
  | true =>
    obtain ⟨mid, wrote, flushed⟩ := sendRoutingId_steps sent
    have bound' := bound.step (bound.talking.can (by simp)) (by simp [harmless]) (by rfl) wrote
    exact bound'.step (bound'.talking.can (by simp)) (by rfl) (by rfl) flushed

theorem Unbound.join {isOpen : Bool} (plain : own.conflate = false)
    (fits : own.sndhwm + bind.rcvhwm < 2 ^ 31 - 1) (unbound : Unbound own s)
    (wakes : ¬ (bind.recvRoutingId = true ∧ bind.rcvhwm = 0 ∧ (s.pipe .first).outActive = false))
    (joined : connectInprocSockets s bind own isOpen lock = .ok t) : Bound own t := by
  obtain ⟨mid, dropped, sent⟩ := bind_ok.mp joined
  refine Bound.offerRoutingId ?_ sent
  have ⟨y, here, greeted⟩ := unbound.waits
  have limited (asleep : (s.pipe .first).outActive ≠ true) : own.sndhwm ≠ 0 :=
    fun unlimited => asleep (unbound.awake unlimited)
  cases wanted : bind.recvRoutingId with
  | true =>
    obtain rfl : s = mid := by simpa [Pair.dropRoutingId, wanted] using dropped
    refine .of_join plain fits unbound.talking unbound.settled here greeted.taken ?_
    by_cases awake : (s.pipe .first).outActive = true
    · exact .inl awake
    · exact .inr (.inr ⟨unbound.waits, limited awake, fun none_left =>
        wakes ⟨wanted, none_left, by simpa using awake⟩⟩)
  | false =>
    obtain ⟨y₀, c, flowing⟩ := unbound.talking.flowing .second
    obtain rfl : y = y₀ := by simpa [here] using flowing.tracks.queue
    obtain ⟨r, read, ends, reading⟩ :=
      flowing.sound.read (flowing.calm.stays flowing.sound .second)
    have taken : s.step (.second, .read) = .ok read := by simp [Pair.step, ends, Except.map]
    have can := unbound.talking.can (x := .second) (a := .read) (by simp)
    have outcome := unbound.talking.outcome can taken
    rcases unbound.waits.reading flowing (by simp) (by simp) reading with
      ⟨rfl, -⟩ | ⟨reported, y', found, items, front⟩
    · simp [Pair.dropRoutingId, wanted, ends] at dropped
    · obtain rfl : read = mid := by
        cases r with
        | none => simp [Pair.dropRoutingId, wanted, ends] at dropped
        | some m => simpa [Pair.dropRoutingId, wanted, ends] using dropped
      refine .of_join plain fits (unbound.talking.step can rfl taken)
        (outcome.settled rfl unbound.settled) found
        (greeted.taken_next (by simp) items front) ?_
      by_cases awake : (s.pipe .first).outActive = true
      · exact .inl ((congrArg Pipe.outActive outcome.pipe_peer).trans awake)
      · refine .inr (.inl (reported ?_))
        rw [unbound.marked.lwm]
        have := limited awake
        exact (Pipe.computeLwm_bounds (by omega) (by omega)).1

end Inproc

/-! ## Sockets that wait for a bind -/

structure Pending where
  joined : Bool
  pair : Pair

namespace Pending

inductive Action where
  | call (e : End) (a : Zmq.Action)
  | join (bind : Options) (isOpen tryLock : Bool)

def step (own : Options) (s : Pending) : Action → Except Fault Pending
  | .call e a => do
      let pair ← s.pair.step (e, a)
      .ok { s with pair := pair }
  | .join bind isOpen tryLock => do
      let pair ← Inproc.connectInprocSockets s.pair bind own isOpen tryLock
      .ok { joined := true, pair := pair }

variable (s : Pending)

/-- The second pipe belongs to nobody before the bind, and there is one bind. -/
def Free : Action → Prop
  | .call e a => s.pair.CanAct (e, a) ∧ Inproc.uses a = true ∧ (e = .second → s.joined = true)
  | .join .. => s.joined = false

/-- The watermarks of the two sockets are together below the largest `int`, and no socket that
    expects a routing id and has no limit binds while the connecter is asleep. -/
def Wakes (own : Options) (s : Pending) (a : Action) : Prop :=
  s.Free a ∧
    match a with
    | .call .. => True
    | .join bind _ _ => own.sndhwm + bind.rcvhwm < 2 ^ 31 - 1 ∧
        ¬ (bind.recvRoutingId = true ∧ bind.rcvhwm = 0 ∧ (s.pair.pipe .first).outActive = false)

instance : DecidablePred s.Free
  | .call _ _ => inferInstanceAs (Decidable (_ ∧ _))
  | .join .. => inferInstanceAs (Decidable (_ = _))

instance (own : Options) (s : Pending) : DecidablePred (Wakes own s)
  | .call .. | .join .. => inferInstanceAs (Decidable (_ ∧ _))

variable {own : Options} {s t : Pending} {a : Action}

def Kept (own : Options) (s : Pending) : Prop :=
  if s.joined then Inproc.Bound own s.pair else Inproc.Unbound own s.pair

theorem kept_step (plain : own.conflate = false) (kept : Kept own s) (wakes : Wakes own s a)
    (taken : s.step own a = .ok t) : Kept own t := by
  obtain ⟨free, woken⟩ := wakes
  cases a with
  | call x a =>
    obtain ⟨pair, ends, rfl⟩ := bind_return.mp taken
    obtain ⟨can, uses, mine⟩ := free
    cases joined : s.joined with
    | true =>
      rw [Kept, if_pos joined] at kept
      exact kept.step can (Pair.harmless_of_uses uses) (Pair.still_of_uses uses) ends
    | false =>
      rw [Kept, if_neg (by simp [joined])] at kept
      cases x with
      | first => exact kept.step can uses ends
      | second => simp [joined] at mine
  | join bind isOpen lock =>
    obtain ⟨pair, ends, rfl⟩ := bind_return.mp taken
    rw [Kept, if_neg (by simp [show s.joined = false from free])] at kept
    exact kept.join plain woken.1 woken.2 ends

/-- In every run in which each bind meets the condition: once the bind has happened, the
    binding socket has read all there is and nothing is in flight, the connecter can
    send. -/
theorem connecter_is_not_lost (own : Options) (lock : Bool) (plain : own.conflate = false)
    {start : Pair} (connected : Inproc.connectInternal own none lock = .ok start) {s : Pending}
    (reached : Reaches (step own) (Wakes own) ⟨false, start⟩ s) (joined : s.joined = true)
    (rest : s.pair.rests .second = true) :
    (s.pair.pipe .first).outActive = true ∧ (s.pair.pipe .first).checkHwm = true := by
  have kept : Kept own s :=
    reached.invariant (P := Kept own) (Inproc.connectInternal_unbound plain connected)
      fun _ _ _ kept wakes taken => kept_step plain kept wakes taken
  rw [Kept, if_pos joined] at kept
  obtain ⟨talking, settled, gap, y, c, flowing, fed, woken⟩ := kept
  obtain ⟨quiet, y', here, drained⟩ := Pair.rests_iff.mp rest
  obtain rfl : y' = y := by simpa [here] using flowing.tracks.queue
  rcases woken with woken | ⟨⟨y₀, found, greeted⟩, -⟩
  · exact flowing.tracks.ready flowing.sound (quiet _) drained (talking.none_leaks here) fed woken
  · -- The greeting is unread, so the queue is not drained.
    obtain rfl : y₀ = y' := by simpa [found] using here
    have := greeted.front
    have := greeted.flushed
    have := drained.read
    omega

private def fill : List Action :=
  [.call .first (.write {} true), .call .first .flush, .call .first (.write {} true)]

theorem connecter_is_not_lost_after_bind :
    ∃ start s, Inproc.connectInternal { sndhwm := 1 } none true = .ok start ∧
      Reaches (step { sndhwm := 1 }) (Wakes { sndhwm := 1 }) ⟨false, start⟩ s ∧ s.joined = true ∧
      s.pair.rests .second = true ∧ (s.pair.pipe .second).msgsRead = 1 ∧
      (s.pair.pipe .first).outActive = true ∧ (s.pair.pipe .first).checkHwm = true := by
  obtain ⟨start, s, connected, reached, joined, rest, read⟩ := exists_reaches_ok
    (Inproc.connectInternal { sndhwm := 1 } none true) (Pending.mk false)
    (step { sndhwm := 1 }) (Wakes { sndhwm := 1 })
    (fill ++ [.join { rcvhwm := 0 } true true, .call .first .deliver, .call .second .read,
      .call .second .read])
    (fun s => s.joined = true ∧ s.pair.rests .second = true ∧ (s.pair.pipe .second).msgsRead = 1)
    (by decide +kernel)
  exact ⟨start, s, connected, reached, joined, rest, read,
    connecter_is_not_lost { sndhwm := 1 } true rfl connected reached joined rest⟩

/-- A socket that expects a routing id binds without a limit: the connecter, which has
    no limit any more, stays asleep for ever. -/
theorem unlimited_bind_loses_connecter :
    ∃ start s, Inproc.connectInternal { sndhwm := 1 } none true = .ok start ∧
      Reaches (step { sndhwm := 1 }) Free ⟨false, start⟩ s ∧ s.joined = true ∧
      s.pair.rests .second = true ∧ (s.pair.pipe .first).checkHwm = true ∧
      (s.pair.pipe .first).outActive = false :=
  exists_reaches_ok _ _ _ _
    (fill ++ [.join { rcvhwm := 0, recvRoutingId := true } true true, .call .second .read,
      .call .second .read, .call .second .read])
    _ (by decide +kernel)

end Pending

/-! ## The greeting before the bind -/

namespace Inproc

open Pair

variable {own : Options} {m : Msg} {s t : Pair} {e : End} {a : Zmq.Action}

/-- Before the bind the connecting socket does what it likes with its pipe, closing it
    included. The other pipe only gets its commands. -/
def Unclaimed (s : Pair) (a : End × Zmq.Action) : Prop :=
  s.CanAct a ∧ (a.2.tells = true → s.Silent a.1) ∧ (a.1 = .second → a.2 = .deliver)

instance (s : Pair) : DecidablePred (Unclaimed s) := fun _ =>
  inferInstanceAs (Decidable (_ ∧ (_ → _ = _) ∧ _))

/-- Whatever has become of the connecter, the greeting is the first to be read. -/
structure Greets (m : Msg) (s : Pair) : Prop where
  sound : s.Sound
  delay : (s.pipe .second).delay = true
  awake : (s.pipe .second).inActive = true
  listens : (s.pipe .second).Listens
  queue : ∀ k q, s.queue .second k = some q → ∃ y, q = .normal y ∧ y.Greeted m

theorem Greets.step (greets : Greets m s) (unclaimed : Unclaimed s (e, a))
    (taken : s.step (e, a) = .ok t) : Greets m t := by
  obtain ⟨can, silent, mine⟩ := unclaimed
  have outcome := greets.sound.outcome can silent taken
  have sound := outcome.sound greets.sound can
  cases e with
  | first =>
    have same : t.pipe .second = s.pipe .second := outcome.pipe_peer
    refine ⟨sound, same ▸ greets.delay, same ▸ greets.awake, same ▸ greets.listens, ?_⟩
    refine outcome.queues_writer ?_ ?_ ?_ greets.queue
    · rintro _ _ ⟨y, rfl, greeted⟩ ⟨⟩
      exact ⟨_, rfl, greeted.cut ‹_› ‹_› ‹_›⟩
    · rintro _ ⟨y, rfl, greeted⟩
      exact ⟨_, rfl, greeted.flush⟩
    · rintro _ k incomplete lock - ⟨y, rfl, greeted⟩
      exact ⟨_, rfl, greeted.write k incomplete⟩
  | second =>
    obtain rfl := mine rfl
    have attentive : s.Attentive .second .deliver := fun _ => greets.delay
    refine ⟨sound, (outcome.delay rfl).trans greets.delay, outcome.inActive nofun nofun greets.awake,
      outcome.listens_on nofun nofun attentive greets.listens, ?_⟩
    cases outcome with
    | deliver at_head receiving =>
      cases receiving with
      | leaves state | answersAndLeaves state =>
        rcases greets.listens with here | here <;> simp [here] at state
      | _ => simpa using greets.queue

theorem Greets.read (greets : Greets m s) (credential : m.isCredential = false)
    (delimiter : m.isDelimiter = false) : ∃ t, s.read .second = .ok (some m, t) := by
  have stays : (s.pipe .second).deleted = false := by
    by_contra gone
    have spoken := greets.sound.inv.state_of_gone (e := .second) (by simpa [handshake] using gone)
    rcases greets.listens with here | here <;> simp [handshake, here] at spoken
  obtain ⟨r, t, ends, reading⟩ := greets.sound.read stays
  cases reading with
  | closed shut => simp [Pipe.readable_iff.mpr ⟨greets.awake, greets.listens⟩] at shut
  | dry _ here dry =>
    obtain ⟨y, rfl, greeted⟩ := greets.queue _ _ here
    exact absurd dry (greeted.not_dry credential)
  | accepted _ here takes =>
    obtain ⟨y, rfl, greeted⟩ := greets.queue _ _ here
    obtain ⟨rfl, -⟩ := greeted.takes credential takes
    exact ⟨_, ends⟩
  | delimiter _ here takes last | answered _ here takes last =>
    obtain ⟨y, rfl, greeted⟩ := greets.queue _ _ here
    obtain ⟨rfl, -⟩ := greeted.takes credential takes
    simp [delimiter] at last

theorem connectInternal_greets {lock : Bool} (plain : own.conflate = false)
    (connected : connectInternal own none lock = .ok s) : Greets own.routingIdMsg s := by
  have unbound := connectInternal_unbound plain connected
  obtain ⟨y, c, flowing⟩ := unbound.talking.flowing .second
  obtain ⟨y', here, greeted⟩ := unbound.waits
  have stream : s.Stream .first := ⟨flowing.sound, flowing.free, fun k inside => by
    have talk := flowing.calm.toWriter _ inside
    cases talk⟩
  obtain ⟨mid, wrote, flushed⟩ := sendRoutingId_steps connected
  have same : s.pipe .second = (newPipes own none).pipe .second :=
    ((mid.step_meets .first .flush).ok flushed).trans
      (((newPipes own none).step_meets .first (.write own.routingIdMsg lock)).ok wrote)
  have fresh : (s.pipe .second).delay = true ∧ (s.pipe .second).inActive = true := by
    rw [same, newPipes, if_neg (by simp [plain])]
    exact ⟨rfl, rfl⟩
  refine ⟨flowing.sound, fresh.1, fresh.2, .inl (flowing.calm.active _), fun k q found => ?_⟩
  obtain rfl := stream.only found here
  exact ⟨y', by simpa [here] using found.symm, greeted⟩

/-- Without conflation the first message on the pipe of the binder is the routing id of the
    connecter, whatever was sent since, and even if the connecter is closed. -/
theorem binder_finds_routing_id (own : Options) (lock : Bool) (plain : own.conflate = false)
    {start s : Pair} (connected : connectInternal own none lock = .ok start)
    (reached : Reaches Pair.step Unclaimed start s) :
    ∃ t, s.read .second = .ok (some own.routingIdMsg, t) ∧
      ∀ bind : Options, s.dropRoutingId .second bind.recvRoutingId =
        .ok (if bind.recvRoutingId then s else t) := by
  have greets : Greets own.routingIdMsg s :=
    reached.invariant (connectInternal_greets plain connected)
      fun _ _ _ greets unclaimed taken => greets.step unclaimed taken
  obtain ⟨t, ends⟩ := greets.read (by simp) (by simp)
  refine ⟨t, ends, fun bind => ?_⟩
  simp only [dropRoutingId, ends]
  split <;> rfl

theorem binder_finds_routing_id_of_closed :
    ∃ start s t, connectInternal {} none true = .ok start ∧
      Reaches Pair.step Unclaimed start s ∧
      (s.pipe .second).state = .waitingForDelimiter ∧
      s.read .second = .ok (some (Options.routingIdMsg {}), t) := by
  obtain ⟨start, s, connected, reached, waits⟩ := exists_reaches_ok
    (connectInternal {} none true) id Pair.step Unclaimed
    [(.first, .write { data := [7] } true), (.first, .flush), (.first, .terminate false true),
      (.second, .deliver)]
    (fun s => (s.pipe .second).state = .waitingForDelimiter) (by decide +kernel)
  obtain ⟨t, ends, -⟩ := binder_finds_routing_id {} true rfl connected reached
  exact ⟨start, s, t, connected, reached, waits, ends⟩

/-- With conflation a message of the connecter takes the place of the routing id and is
    dropped for it. The delimiter of a connecter that is closed does so too, and there is
    nothing to read. -/
theorem conflation_drops_routing_id :
    (∃ start s, connectInternal { conflate := true } none true = .ok start ∧
      Reaches Pair.step Unclaimed start s ∧
      (s.read .second).toOption.bind Prod.fst = some { data := [7] }) ∧
    ∃ start s, connectInternal { conflate := true } none true = .ok start ∧
      Reaches Pair.step Unclaimed start s ∧
      s.dropRoutingId .second false = .error (.assertion .connectInprocSockets) :=
  ⟨exists_reaches_ok _ id _ _ [(.first, .write { data := [7] } true), (.first, .flush)] _
      (by decide +kernel),
    exists_reaches_ok _ id _ _ [(.first, .terminate false true)] _ (by decide +kernel)⟩

end Inproc

end Zmq
