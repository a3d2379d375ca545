import Zmq.Inproc.Basic

/-! # Watermarks that change

A change of `ZMQ_SNDHWM` or `ZMQ_RCVHWM` reaches the two ends of a pipe at
different times, and the end that reports is not the end that is limited. When the
last change arrives, the counts may be where no report will come any more. The
condition `Covered` says that this is not so, for the counts that the change finds and the
watermarks that the options amount to.
-/

namespace Zmq

open Lib

/-- The messages still to be read before the next report, if there is one every `lwm`. -/
def Pipe.untilReport (p : Pipe) (lwm : Int) : Nat := untilDue (2 ^ 64) lwm.toNat p.msgsRead.toNat

namespace Pair

variable {s t : Pair} {e x : End} {a : Action} {y : Ypipe Msg} {c : Credit} {options : Options}
  {lock : Bool}

/-- Both directions are in use, and live unless a change is still on its way. -/
structure Balanced (s : Pair) : Prop where
  talking : s.Talking
  live : s.Settled → ∀ e, ∃ y c, s.Live e y c

theorem Balanced.step (balanced : s.Balanced) (can : s.CanAct (x, a)) (harmless : harmless a = true)
    (still : a.tunes = false) (taken : s.step (x, a) = .ok t)
    (settles : ¬ s.Settled → t.Settled → ∀ e, ∃ y c, t.Live e y c) : t.Balanced where
  talking := balanced.talking.step can harmless taken
  live settled e := by
    by_cases before : s.Settled
    · obtain ⟨y, c, live⟩ := balanced.live before e
      obtain ⟨y', c', live', -⟩ :=
        live.step can (steady_of_harmless harmless) still before taken
      exact ⟨y', c', live'⟩
    · exact settles before settled e

theorem Talking.still_step (talking : s.Talking) (settled : s.Settled) (call : a ≠ .deliver)
    (harmless : harmless a = true) (still : a.tunes = false) (taken : s.step (x, a) = .ok t) :
    t.Talking ∧ t.Settled := by
  have can := talking.can (x := x) call
  exact ⟨talking.step can harmless taken, (talking.outcome can taken).settled still settled⟩

theorem Balanced.still_step (balanced : s.Balanced) (settled : s.Settled) (call : a ≠ .deliver)
    (harmless : harmless a = true) (still : a.tunes = false) (taken : s.step (x, a) = .ok t) :
    t.Balanced ∧ t.Settled :=
  ⟨balanced.step (balanced.talking.can call) harmless still taken
      (fun unsettled => absurd settled unsettled),
    (balanced.talking.still_step settled call harmless still taken).2⟩

theorem sendRoutingId_steps (sent : s.sendRoutingId e options lock = .ok t) :
    ∃ mid, s.step (e, .write options.routingIdMsg lock) = .ok mid ∧ mid.step (e, .flush) = .ok t := by
  obtain ⟨⟨written, mid⟩, wrote, flushed⟩ := bind_ok.mp sent
  cases written with
  | false => cases flushed
  | true => exact ⟨mid, by simp [Pair.step, wrote, Except.map], flushed⟩

/-- `send_routing_id` keeps what every harmless call keeps. -/
theorem sendRoutingId_keeps {P : Pair → Prop} (sent : s.sendRoutingId e options lock = .ok t)
    (keeps : ∀ {s a t}, P s → a ≠ .deliver → harmless a = true → a.tunes = false →
      s.step (e, a) = .ok t → P t) (start : P s) : P t := by
  obtain ⟨mid, wrote, flushed⟩ := sendRoutingId_steps sent
  have wrote' := keeps start (by simp) (by simp [harmless]) rfl wrote
  exact keeps wrote' (by simp) (by rfl) rfl flushed

theorem Talking.sendRoutingId (talking : s.Talking) (settled : s.Settled)
    (sent : s.sendRoutingId e options lock = .ok t) : t.Talking ∧ t.Settled :=
  sendRoutingId_keeps (P := fun s => s.Talking ∧ s.Settled) sent
    (fun both => both.1.still_step both.2) ⟨talking, settled⟩

theorem Balanced.offerRoutingId {wanted : Bool} (balanced : s.Balanced) (settled : s.Settled)
    (sent : s.offerRoutingId e wanted options lock = .ok t) : t.Balanced ∧ t.Settled := by
  cases wanted with
  | false =>
    cases sent
    exact ⟨balanced, settled⟩
  | true =>
    exact sendRoutingId_keeps (P := fun s => s.Balanced ∧ s.Settled) sent
      (fun both => both.1.still_step both.2) ⟨balanced, settled⟩

/-! ## When a change has arrived -/

theorem ofNat_closest {taken n : Nat} (le : n ≤ taken) :
    UInt64.ofNat (Credit.closest (2 ^ 64) taken n) = UInt64.ofNat n := by
  apply UInt64.toNat.inj
  simpa using Credit.closest_mod le

theorem Tracks.tighten (tracks : s.Tracks e y c) : s.Tracks e y (c.tighten (2 ^ 64)) where
  __ := tracks
  known := by
    rw [tracks.known]
    exact (ofNat_closest (tracks.behind _ List.mem_cons_self)).symm
  reports := by
    rw [tracks.reports, Credit.tighten, List.map_map]
    apply List.map_congr_left
    intro n member
    exact (ofNat_closest (tracks.behind n (List.mem_cons_of_mem _ member))).symm
  awake := tracks.awake
  behind := c.tighten_behind _

/-- A command leaves a mailbox at its head, when it is delivered. -/
theorem Outcome.mem_kept (outcome : Outcome s x a t) (uses : Inproc.uses a = true) {c : Command}
    (member : c ∈ s.mailbox e) : c ∈ t.mailbox e ∨ a = .deliver ∧ (s.mailbox x).head? = some c := by
  cases outcome with
  | checked how | read how | write how | rollback how | flush how =>
    left
    rcases e.eq_or_peer x with rfl | rfl <;> cases how <;> simp [member]
  | deliver at_head receiving =>
    by_cases head : (s.mailbox x).head? = some c
    · exact .inr ⟨rfl, head⟩
    · left
      rcases e.eq_or_peer x with rfl | rfl
      · rw [at_head] at member head
        have later := (List.mem_cons.mp member).resolve_left fun same => head (by rw [same]; rfl)
        cases receiving <;> simp [later]
      · cases receiving <;> simp [member]
  | peeked | writable | full => exact .inl member
  | _ => cases uses

theorem Outcome.arrives (outcome : Outcome s x a t) (uses : Inproc.uses a = true)
    (unsettled : ¬ s.Settled) (settled : t.Settled) : ∃ inhwm outhwm rest, a = .deliver ∧
      s.mailbox x = .pipeHwm inhwm outhwm :: rest ∧
      t = (s.setMailbox x rest).setPipe x ((s.pipe x).setHwms inhwm outhwm) := by
  simp only [Settled, not_forall, not_not] at unsettled
  obtain ⟨e, inhwm, outhwm, member⟩ := unsettled
  rcases outcome.mem_kept uses member with kept | ⟨rfl, head⟩
  · exact absurd kept (settled _ _ _)
  · cases outcome with
    | deliver at_head receiving =>
      obtain rfl := Option.some.inj (show some _ = _ by simpa [at_head] using head)
      cases receiving with
      | limited => exact ⟨_, _, _, rfl, at_head, rfl⟩

def backlog (s : Pair) (e : End) : Nat :=
  match s.queue e (s.pipe e).inPipe with
  | some (.normal y) => y.backlog
  | _ => 0

/-- The messages that `e` has read since its last report, whether that has arrived or
    not. -/
def unreported (s : Pair) (e : End) : Nat :=
  ((s.pipe e).msgsRead -
    (s.reports e.peer).getLast?.getD (s.pipe e.peer).peersMsgsRead).toNat

/-- The watermarks `hwm` and `lwm` suit the counts of the direction that `e` reads.
    Reports come at least once in a limit; the next one comes while the writer has
    something queued, or has credit left to queue it; and if the writer sleeps, a
    report is on its way or comes from what is queued. -/
def Covered (s : Pair) (e : End) (hwm lwm : Int) : Prop :=
  (0 < hwm → (0 < lwm ∧ lwm ≤ hwm) ∧
    ((s.pipe e).untilReport lwm ≤ s.backlog e ∨
      s.unreported e + (s.pipe e).untilReport lwm ≤ hwm.toNat)) ∧
  ((s.pipe e.peer).outActive = true ∨ s.reports e.peer ≠ [] ∨
    0 < lwm ∧ (s.pipe e).untilReport lwm ≤ s.backlog e)
  deriving Decidable

/-- What an option and the share of the other side add up to; without a limit on one side
    there is none. -/
def total (option share : Int) : Int :=
  if option ≤ 0 ∨ share = 0 then 0 else option + max share 0

/-- The options that the last change brings to `e` suit both directions: their sums with the
    shares of `e` are far enough from the largest `int`, and the watermarks they amount to cover
    the counts that they find. -/
def Suits (s : Pair) (e : End) (inhwm outhwm : Int) : Prop :=
  total inhwm (s.pipe e).inHwmBoost < 2 ^ 31 - 1 ∧ total outhwm (s.pipe e).outHwmBoost < 2 ^ 31 - 1 ∧
    s.Covered e (s.pipe e.peer).hwm ((total inhwm (s.pipe e).inHwmBoost + 1) / 2) ∧
    s.Covered e.peer (total outhwm (s.pipe e).outHwmBoost) (s.pipe e.peer).lwm
  deriving Decidable

/-- The marks that `set_hwms` sets are those of the sums. -/
theorem setHwms_marks {p : Pipe} {inhwm outhwm : Int} (low : total inhwm p.inHwmBoost < 2 ^ 31 - 1)
    (high : total outhwm p.outHwmBoost < 2 ^ 31 - 1) :
    (p.setHwms inhwm outhwm).lwm = (total inhwm p.inHwmBoost + 1) / 2 ∧
      (p.setHwms inhwm outhwm).hwm = total outhwm p.outHwmBoost := by
  have sum {option share : Int} (small : total option share < 2 ^ 31 - 1) :
      (if option ≤ 0 ∨ share = 0 then 0 else int (option + max share 0)) =
        total option share := by
    rw [total] at small ⊢
    split
    · rfl
    · rw [if_neg ‹_›] at small
      exact int_eq_self (by omega) (by omega)
  have pos : 0 ≤ total inhwm p.inHwmBoost := by
    rw [total]
    split <;> omega
  simp only [Pipe.setHwms, sum low, sum high, Pipe.computeLwm, and_true]
  rw [int_eq_self (by omega) (by omega), Int.tdiv_eq_ediv_of_nonneg (by omega)]

theorem Suits.covered {inhwm outhwm : Int} {rest : List Command} (suits : s.Suits x inhwm outhwm)
    (at_head : s.mailbox x = .pipeHwm inhwm outhwm :: rest) (e : End) :
    let t := (s.setMailbox x rest).setPipe x ((s.pipe x).setHwms inhwm outhwm)
    t.Covered e (t.pipe e.peer).hwm (t.pipe e).lwm := by
  obtain ⟨low, high, own, other⟩ := suits
  obtain ⟨lwm, hwm⟩ := setHwms_marks low high
  have reports : (s.setMailbox x rest).reports x = s.reports x := by simp [Pair.reports, at_head]
  have same : ((s.pipe x).setHwms inhwm outhwm).msgsRead = (s.pipe x).msgsRead ∧
      ((s.pipe x).setHwms inhwm outhwm).peersMsgsRead = (s.pipe x).peersMsgsRead ∧
      ((s.pipe x).setHwms inhwm outhwm).outActive = (s.pipe x).outActive ∧
      ((s.pipe x).setHwms inhwm outhwm).inPipe = (s.pipe x).inPipe := ⟨rfl, rfl, rfl, rfl⟩
  rcases e.eq_or_peer x with rfl | rfl
  · simpa [lwm, same, Covered, unreported, backlog, Pipe.untilReport] using own
  · simpa [hwm, same, reports, Covered, unreported, backlog, Pipe.untilReport] using other

namespace Tracks

theorem backlog_eq (tracks : s.Tracks e y c) (none_leaks : ∀ m ∈ y.items, m.leaks = false) :
    c.taken + s.backlog e = c.written := by
  have := y.written_of_no_leaks none_leaks
  rw [Pair.backlog, tracks.queue, tracks.written, tracks.taken]
  exact this.symm

theorem unreported_eq (tracks : s.Tracks e y c) :
    (c.tighten (2 ^ 64)).last + s.unreported e = c.taken := by
  have last : (s.reports e.peer).getLast?.getD (s.pipe e.peer).peersMsgsRead = .ofNat c.last := by
    rw [tracks.reports, tracks.known, List.getLast?_map, Credit.last]
    cases c.reports.getLast? with
    | none | some => rfl
  have behind := tracks.behind _ c.last_mem
  rw [unreported, last, tracks.seen, sub_toNat_ofNat behind, Credit.tighten_last,
    ← Credit.taken_sub_closest (M := 2 ^ 64)]
  have := Credit.closest_le (2 ^ 64) c.taken c.last
  omega

theorem due_untilReport (tracks : s.Tracks e y c) (low : 0 < (s.pipe e).lwm) :
    c.taken < c.taken + (s.pipe e).untilReport (s.pipe e).lwm ∧
      (s.pipe e).due (c.taken + (s.pipe e).untilReport (s.pipe e).lwm) := by
  have same : (s.pipe e).untilReport (s.pipe e).lwm = untilDue (2 ^ 64) (s.pipe e).lwm.toNat c.taken := by
    rw [Pipe.untilReport, tracks.seen, untilDue, untilDue]
    simp
  rw [same]
  have := untilDue_pos (M := 2 ^ 64) (L := (s.pipe e).lwm.toNat) (by decide) (by omega) c.taken
  exact ⟨by omega, low, untilDue_due (by decide) (by omega) c.taken⟩

end Tracks

theorem Covered.live (covered : s.Covered e (s.pipe e.peer).hwm (s.pipe e).lwm)
    (flowing : s.Flowing e y c) (none_leaks : ∀ m ∈ y.items, m.leaks = false) : s.Live e y (c.tighten (2 ^ 64)) := by
  obtain ⟨limited, waking⟩ := covered
  have tracks := flowing.tracks
  have queued := tracks.backlog_eq none_leaks
  have unreported := tracks.unreported_eq
  refine ⟨⟨flowing.sound, flowing.free, flowing.calm, tracks.tighten⟩,
    Pipe.gap fun pos => (limited pos).1, ?_, ?_⟩
  · intro H same
    obtain ⟨pos, rfl⟩ : 0 < (s.pipe e.peer).hwm ∧ (s.pipe e.peer).hwm.toNat = H := by
      simpa [Pipe.limit] using same
    obtain ⟨⟨low, -⟩, near⟩ := limited pos
    obtain ⟨above, due⟩ := tracks.due_untilReport low
    refine ⟨_, above, ?_, due⟩
    change _ ≤ max c.written _
    omega
  · rcases waking with active | pending | ⟨low, near⟩
    · exact .inl (by rw [← active]; exact tracks.awake.symm)
    · refine .inr (.inl fun none_left => pending ?_)
      rw [tracks.tighten.reports, none_left]
      rfl
    · obtain ⟨above, due⟩ := tracks.due_untilReport low
      refine .inr (.inr ⟨_, above, ?_, due⟩)
      change _ ≤ c.written
      omega

end Pair

namespace Inproc

open Pair

variable {own peer : Options} {lock : Bool} {s t : Pair} {e : End}

theorem newPipes_talking (plain : own.conflate = false) (peer : Option Options) :
    (newPipes own peer).Talking ∧ (newPipes own peer).Settled := by
  simp only [newPipes, plain]
  exact ⟨((attached_talking _).setHwmsBoost _ _).setHwmsBoost _ _, fun _ _ _ => nofun⟩

/-- The watermarks of both directions are below the largest `int`, whose successor is negative. -/
def Fits (own peer : Options) : Prop :=
  own.sndhwm + peer.rcvhwm < 2 ^ 31 - 1 ∧ own.rcvhwm + peer.sndhwm < 2 ^ 31 - 1
  deriving Decidable

section Sums

variable {own peer : Nat} (fits : own + peer < 2 ^ 31 - 1)
include fits

theorem totalHwm_eq :
    totalHwm own (some peer) = if own ≠ 0 ∧ peer ≠ 0 then (own + peer : Int) else 0 := by
  rw [totalHwm, int_eq_self (by omega) (by omega)]

theorem totalHwm_small : totalHwm own (some peer) < 2 ^ 31 - 1 := by
  rw [totalHwm_eq fits]
  split <;> omega

end Sums

theorem newPipes_balanced (plain : own.conflate = false) (fits : Fits own peer) :
    (newPipes own (some peer)).Balanced ∧ (newPipes own (some peer)).Settled := by
  have boosted {hwms : End → Int} (small : ∀ e, hwms e < 2 ^ 31 - 1) :
      let s := ((attached hwms fun _ => false).setHwmsBoost .first peer.sndhwm peer.rcvhwm).setHwmsBoost
        .second own.sndhwm own.rcvhwm
      s.Balanced ∧ s.Settled := by
    have fresh : (attached hwms fun _ => false).Balanced :=
      ⟨attached_talking hwms, fun _ e => ⟨_, _, attached_live hwms e (small _)⟩⟩
    obtain ⟨first, settled⟩ := fresh.still_step (x := .first)
      (a := .setHwmsBoost peer.sndhwm peer.rcvhwm) (fun _ _ _ => nofun) nofun rfl rfl rfl
    exact first.still_step (x := .second) (a := .setHwmsBoost own.sndhwm own.rcvhwm) settled nofun
      rfl rfl rfl
  simp only [newPipes, plain]
  apply boosted
  rintro (_ | _)
  · exact totalHwm_small fits.1
  · exact totalHwm_small fits.2

theorem connectInternal_balanced (plain : own.conflate = false) (fits : Fits own peer)
    (connected : connectInternal own (some peer) lock = .ok s) : s.Balanced := by
  obtain ⟨balanced, settled⟩ := newPipes_balanced plain fits
  obtain ⟨mid, first, second⟩ := bind_ok.mp connected
  obtain ⟨balanced', settled'⟩ := balanced.offerRoutingId settled first
  exact (balanced'.offerRoutingId settled' second).1

end Inproc

/-! ## Sockets that change their options -/

/-- Two sockets connected by inproc, with their options as they are now. -/
structure Sockets where
  options : End → Options
  pair : Pair

namespace Sockets

inductive Action where
  | call (e : End) (a : Zmq.Action)
  | setsockopt (e : End) (option : Inproc.HwmOption) (value : Int)

def step (s : Sockets) : Action → Except Fault Sockets
  | .call e a => do
      let pair ← s.pair.step (e, a)
      .ok { s with pair := pair }
  | .setsockopt e option value => do
      let options := Inproc.setOption (s.options e) option value
      let pair ← Inproc.updatePipeOptions s.pair e options
      .ok { options := Function.update s.options e options, pair := pair }

variable (s : Sockets)

/-- Sockets use their pipes and change their watermarks at will, to what an `int` can hold. -/
def Free : Action → Prop
  | .call e a => s.pair.CanAct (e, a) ∧ Inproc.uses a = true
  | .setsockopt e _ value => (s.pair.pipe e).deleted = false ∧ value < 2 ^ 31

/-- The last change on its way is taken from the mailbox only if it suits what it finds. -/
def Suited : Action → Prop
  | .call e .deliver =>
    match s.pair.mailbox e with
    | .pipeHwm inhwm outhwm :: rest =>
      (s.pair.setMailbox e rest).Settled → s.pair.Suits e inhwm outhwm
    | _ => True
  | _ => True

def Careful (a : Action) : Prop := s.Free a ∧ s.Suited a

instance : DecidablePred s.Free
  | .call _ _ | .setsockopt .. => inferInstanceAs (Decidable (_ ∧ _))

instance : DecidablePred s.Suited := by
  intro a
  unfold Suited
  split
  · split <;> infer_instance
  · infer_instance

instance (a : Action) : Decidable (Careful s a) :=
  inferInstanceAs (Decidable (_ ∧ _))

variable {s t : Sockets} {a : Action}

theorem balanced_step (balanced : s.pair.Balanced) (careful : s.Careful a)
    (taken : s.step a = .ok t) : t.pair.Balanced := by
  obtain ⟨free, suited⟩ := careful
  cases a with
  | call x a =>
    obtain ⟨pair, ends, rfl⟩ := bind_return.mp taken
    obtain ⟨can, uses⟩ := free
    have harmless := Pair.harmless_of_uses uses
    have talking := balanced.talking.step can harmless ends
    refine balanced.step can harmless (Pair.still_of_uses uses) ends fun unsettled settled e => ?_
    obtain ⟨y, c, flowing⟩ := talking.flowing e
    suffices covered : pair.Covered e (pair.pipe e.peer).hwm (pair.pipe e).lwm from
      ⟨y, _, covered.live flowing (talking.none_leaks flowing.tracks.queue)⟩
    obtain ⟨inhwm, outhwm, rest, rfl, at_head, rfl⟩ :=
      (balanced.talking.outcome can ends).arrives uses unsettled settled
    simp only [Suited, at_head] at suited
    exact (suited settled).covered at_head e
  | setsockopt x option value =>
    obtain ⟨pair, ends, rfl⟩ := bind_return.mp taken
    have between := balanced.talking.setHwms (e := x)
      (Inproc.setOption (s.options x) option value).rcvhwm
      (Inproc.setOption (s.options x) option value).sndhwm
    refine ⟨between.step (a := .sendHwmsToPeer _ _) (between.can nofun) rfl ends,
      fun settled => ?_⟩
    -- The change itself is on its way now.
    cases between.outcome (a := .sendHwmsToPeer _ _) (between.can nofun) ends with
    | sendHwmsToPeer => exact absurd Pair.mem_post_self (settled x.peer _ _)

/-- In every run in which each change that arrives is covered, a writer whose reader
    has caught up can write, once nothing is on its way any more. -/
theorem careful_writer_is_not_blocked (own bound : Options) (now : End → Options) (lock : Bool)
    (plain : own.conflate = false) (fits : Inproc.Fits own bound) {start : Pair}
    (connected : Inproc.connectInternal own (some bound) lock = .ok start) {s : Sockets}
    (reached : Reaches step Careful ⟨now, start⟩ s) (e : End) (rest : s.pair.rests e = true) :
    (s.pair.pipe e.peer).outActive = true ∧ (s.pair.pipe e.peer).checkHwm = true := by
  have balanced : s.pair.Balanced :=
    reached.invariant (P := fun s => s.pair.Balanced)
      (Inproc.connectInternal_balanced plain fits connected)
      fun _ _ _ balanced careful taken => balanced_step balanced careful taken
  obtain ⟨quiet, y, here, drained⟩ := Pair.rests_iff.mp rest
  have settled : s.pair.Settled := by
    intro x inhwm outhwm member
    simp [quiet x] at member
  obtain ⟨y', c, live⟩ := balanced.live settled e
  obtain rfl : y = y' := by simpa [here] using live.flowing.tracks.queue
  exact live.ready (quiet _) drained (balanced.talking.none_leaks here)

theorem careful_writer_is_not_blocked_after_raise :
    ∃ s, Reaches step Careful ⟨fun _ => { sndhwm := 1, rcvhwm := 1 },
        Inproc.newPipes { sndhwm := 1, rcvhwm := 1 } (some { sndhwm := 1, rcvhwm := 1 })⟩ s ∧
      s.pair.rests .second = true ∧ (s.pair.pipe .first).hwm = 4 ∧
      (s.pair.pipe .first).outActive = true ∧ (s.pair.pipe .first).checkHwm = true :=
  exists_run_and₂
    [.setsockopt .first .sndhwm 3, .call .second .deliver, .call .first (.write {} true),
      .call .first (.write {} true), .call .first .flush, .call .second .read,
      .call .second .read, .call .second .read, .call .first .deliver]
    (by decide +kernel) fun _ reached rest _ => careful_writer_is_not_blocked
      { sndhwm := 1, rcvhwm := 1 } { sndhwm := 1, rcvhwm := 1 } _ true rfl (by decide) rfl
      reached .second rest

/-- The receiver sets its watermark to what it was. Its own low watermark still has the
    sender's share in it, the sender's high watermark has the receiver's share twice:
    the reports are now further apart than the limit. -/
theorem reapplied_hwm_blocks_writer :
    ∃ start s, Inproc.connectInternal { sndhwm := 5 } (some { rcvhwm := 1 }) true = .ok start ∧
      Reaches step Free ⟨fun | .first => { sndhwm := 5 } | .second => { rcvhwm := 1 }, start⟩ s ∧
      s.pair.rests .second = true ∧ (s.pair.pipe .first).outActive = false ∧
      (s.pair.pipe .first).checkHwm = false :=
  exists_reaches_ok _ _ _ _
    [.setsockopt .second .rcvhwm 1, .call .first .deliver, .call .first (.write {} true),
      .call .first (.write {} true), .call .first .flush, .call .first (.write {} true),
      .call .second .read, .call .second .read, .call .second .read]
    _ (by decide +kernel)

end Sockets

end Zmq
