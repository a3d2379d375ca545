import Zmq.Pattern.Dist
import Zmq.Pattern.Lb

/-! # Whole messages on every pipe of a distributor

`xpub_t` and `radio_t` choose the pipes of a message before its first frame, `xsub_t` sends
to all and writes its subscriptions past the distributor. In either case a pipe may refuse a
frame, or get a new queue by a hiccup, between any two frames. `dist_t` then forgets the
frames that the pipe has got already, but nobody takes them back.
-/

namespace Zmq

open Lib Balancer Function

/-- A socket with a distributor and the pipes, whose first ends it writes to. -/
structure Distributor (ι : Type) where
  subscriber : Bool
  immediate : Bool
  dist : Dist ι
  pair : ι → Pair
  /-- What the caller has handed over of a message that is not complete. -/
  begun : List Msg := []
  /-- The complete messages: the caller's are for all pipes, a subscription for one. -/
  offered : List (Option ι × List Msg) := []

namespace Distributor

variable {ι : Type} [DecidableEq ι]

def start (subscriber immediate : Bool) (hwms : ι → End → Int) : Distributor ι where
  subscriber := subscriber
  immediate := immediate
  dist := .empty
  pair i := .attached (hwms i) fun _ => false

inductive Action (ι : Type) where
  /-- With the subscriptions that are written to the new pipe, or the welcome message. -/
  | attach (pipe : ι) (subscriptions : List Msg) (tryLock : Bool)
  | matchPipe (pipe : ι)
  | reverseMatch
  | unmatch
  /-- `send_to_all` of `xsub_t`, `send_to_matching` of the others. -/
  | send (msg : Msg) (tryLock : Bool)
  | call (pipe : ι) (a : Zmq.Action)
  | deliver (pipe : ι) (subscriptions : List Msg) (tryLock : Bool)
  | peer (pipe : ι) (a : Zmq.Action)

variable (s : Distributor ι)

def offeredTo (i : ι) : List (List Msg) :=
  (s.offered.filter fun o => o.1 = none ∨ o.1 = some i).map (·.2)

def handed (msg : Msg) : Distributor ι :=
  if msg.more then { s with begun := s.begun ++ [msg] }
  else { s with begun := [], offered := s.offered ++ [(none, s.begun ++ [msg])] }

def sendDirect (pipe : ι) (subscriptions : List Msg) (tryLock : Bool) :
    Except Fault (Distributor ι) := do
  let t ← (s.pair pipe).sendAll .first subscriptions tryLock
  .ok { s with
    pair := update s.pair pipe t
    offered := s.offered ++ subscriptions.map fun m => (some pipe, [m]) }

def hiccuped (pipe : ι) (subscriptions : List Msg) (tryLock : Bool) :
    Except Fault (Distributor ι) :=
  if s.immediate then do
    let t ← (s.pair pipe).terminate .first false tryLock
    .ok { s with pair := update s.pair pipe t }
  else if s.subscriber then s.sendDirect pipe subscriptions tryLock
  else .error (.assertion .xhiccuped)

def react (pipe : ι) (subscriptions : List Msg) (tryLock : Bool) :
    Option Event → Except Fault (Distributor ι)
  | some .writeActivated => do
      let d ← s.dist.activated pipe
      .ok { s with dist := d }
  | some .pipeTerminated => do
      let d ← s.dist.pipeTerminated pipe
      .ok { s with dist := d }
  | some .hiccuped => s.hiccuped pipe subscriptions tryLock
  | _ => .ok s

def pass (msg : Msg) (tryLock : Bool) : Except Fault (Dist ι × (ι → Pair)) :=
  if s.subscriber then s.dist.sendToAll s.pair msg tryLock
  else s.dist.sendToMatching s.pair msg tryLock

def send (msg : Msg) (tryLock : Bool) : Except Fault (Distributor ι) := do
  let (d, pair) ← s.pass msg tryLock
  .ok (handed { s with dist := d, pair := pair } msg)

def step (s : Distributor ι) : Action ι → Except Fault (Distributor ι)
  | .attach pipe subscriptions tryLock => do
      let d ← s.dist.attach pipe
      sendDirect { s with dist := d } pipe subscriptions tryLock
  | .matchPipe pipe => do
      let d ← s.dist.matchPipe pipe
      .ok { s with dist := d }
  | .reverseMatch => do
      let d ← s.dist.reverseMatch
      .ok { s with dist := d }
  | .unmatch => .ok { s with dist := s.dist.unmatch }
  | .send msg tryLock => s.send msg tryLock
  | .call pipe a => do
      let t ← (s.pair pipe).step (.first, a)
      .ok { s with pair := update s.pair pipe t }
  | .deliver pipe subscriptions tryLock => do
      let (t, event) ← (s.pair pipe).deliver .first
      react { s with pair := update s.pair pipe t } pipe subscriptions tryLock event
  | .peer pipe a => do
      let t ← (s.pair pipe).step (.second, a)
      .ok { s with pair := update s.pair pipe t }

/-- The socket attaches a pipe once and chooses pipes between messages only. It writes through
    the distributor, subscriptions apart. -/
def Allowed : Action ι → Prop
  | .attach pipe subscriptions _ =>
    ((s.pair pipe).pipe .first).deleted = false ∧ ∀ m ∈ subscriptions, m.single = true
  | .matchPipe pipe => s.subscriber = false ∧ s.dist.more = false ∧ pipe ∈ s.dist.pipes.items
  | .reverseMatch | .unmatch => s.subscriber = false ∧ s.dist.more = false
  | .send msg _ => msg.isDelimiter = false
  | .call pipe a => pipe ∈ s.dist.pipes.items ∧ (s.pair pipe).Considerate (.first, a) ∧
      a.aside = true ∧ a ≠ .checkWrite ∧ a ≠ .deliver
  | .deliver pipe subscriptions _ => pipe ∈ s.dist.pipes.items ∧
      (s.pair pipe).mailbox .first ≠ [] ∧ ∀ m ∈ subscriptions, m.single = true
  | .peer pipe a => (s.pair pipe).Considerate (.second, a)

instance (a : Action ι) : Decidable (s.Allowed a) := by
  cases a <;> dsimp only [Allowed] <;> infer_instance

/-- The next command for the socket's end of this pipe renews a queue that has the first frames
    of a message. -/
def interrupts (pipe : ι) : Prop :=
  (((s.pair pipe).mailbox .first).head?.any Command.isHiccup = true ∧ s.immediate = false) ∧
    ((s.pair pipe).pipe .first).state = .active ∧ s.dist.more = true ∧ s.dist.isMatching pipe

/-- In the middle of a message no pipe that has its first frames is full, and none gets a new
    queue. -/
def Steady (a : Action ι) : Prop :=
  s.Allowed a ∧ match a with
    | .send _ _ => s.dist.more = true → ∀ i ∈ s.dist.pipes.items, s.dist.isMatching i →
        ((s.pair i).pipe .first).state = .active → ((s.pair i).pipe .first).checkHwm = true
    | .deliver pipe _ _ => ¬ s.interrupts pipe
    | _ => True

instance (pipe : ι) : Decidable (s.interrupts pipe) :=
  inferInstanceAs (Decidable (_ ∧ _))

instance (a : Action ι) : Decidable (s.Steady a) := by
  cases a <;> dsimp only [Steady] <;> infer_instance

/-- What was flushed on a pipe is some of the messages that were meant for it, in order and with
    all their frames. -/
def Whole : Prop :=
  (∀ o ∈ s.offered, IsMessage o.2) ∧ ∀ i k q, (s.pair i).queue .second k = some q →
    ∃ messages : List (List Msg), messages.Sublist (s.offeredTo i) ∧ q.flushed = messages.flatten

/-! ## The invariant -/

def owes (i : ι) : Prop := s.dist.more = true ∧ s.dist.isMatching i

instance (i : ι) : Decidable (s.owes i) := inferInstanceAs (Decidable (_ ∧ _))

def pending (i : ι) : List Msg := if s.owes i then s.begun else []

structure Frames (s : Distributor ι) : Prop where
  begun : ∀ m ∈ s.begun, m.isDelimiter = false ∧ m.more = true
  offered : ∀ o ∈ s.offered, IsMessage o.2

structure Inv (s : Distributor ι) : Prop where
  ok : s.dist.Ok
  stays : ∀ i ∈ s.dist.pipes.items, ((s.pair i).pipe .first).deleted = false
  supplies : ∀ i, (s.pair i).Supplies .first (s.offeredTo i) (s.pending i)
  flushed : ∀ i, (s.pair i).Handed .first
  idle : s.dist.more = false → s.begun = []
  /-- A subscriber's message goes to all pipes that were active at its first frame. -/
  level : s.subscriber = true → s.dist.more = true → ∀ i, s.dist.isMatching i ↔ s.dist.isActive i
  ready : ∀ i, s.owes i → ((s.pair i).pipe .first).state = .active →
    ((s.pair i).pipe .first).outActive = true
  frames : s.Frames

variable {s s' : Distributor ι} {i j p : ι} {t : Pair} {d : Dist ι} {msg : Msg} {lock : Bool}
  {subscriptions : List Msg} {a : Action ι}

theorem pending_of_not (free : ¬ s.owes i) : s.pending i = [] := if_neg free

section

omit [DecidableEq ι]

@[simp] theorem handed_dist (s : Distributor ι) (msg : Msg) : (s.handed msg).dist = s.dist := by
  unfold handed; split <;> rfl

@[simp] theorem handed_pair (s : Distributor ι) (msg : Msg) : (s.handed msg).pair = s.pair := by
  unfold handed; split <;> rfl

@[simp] theorem handed_subscriber (s : Distributor ι) (msg : Msg) :
    (s.handed msg).subscriber = s.subscriber := by
  unfold handed; split <;> rfl

end

theorem offeredTo_handed (s : Distributor ι) (msg : Msg) (i : ι) : (s.handed msg).offeredTo i =
    s.offeredTo i ++ if msg.more then [] else [s.begun ++ [msg]] := by
  unfold handed
  split <;> simp [offeredTo]

theorem offeredTo_direct (s : Distributor ι) (p i : ι) (subscriptions : List Msg) :
    offeredTo { s with offered := s.offered ++ subscriptions.map fun m => (some p, [m]) } i =
      s.offeredTo i ++ if i = p then subscriptions.map ([·]) else [] := by
  by_cases same : i = p
  · subst same
    simp [offeredTo, List.filter_map, comp_def]
  · have other : ¬ p = i := fun equal => same equal.symm
    simp [offeredTo, same, other]

omit [DecidableEq ι] in
theorem Frames.handed (frames : s.Frames) (data : msg.isDelimiter = false) :
    (s.handed msg).Frames := by
  unfold Distributor.handed
  split
  · rename_i more
    exact ⟨forall_mem_concat frames.begun ⟨data, more⟩, frames.offered⟩
  · rename_i last
    refine ⟨nofun, forall_mem_concat frames.offered ?_⟩
    exact ⟨s.begun, msg, rfl, fun m there => (frames.begun m there).2, by simpa using last⟩

namespace Inv

theorem whole (inv : s.Inv) : s.Whole :=
  ⟨inv.frames.offered, fun i _ _ found => (inv.supplies i).flushed (inv.flushed i) found⟩

theorem start (subscriber immediate : Bool) (hwms : ι → End → Int) :
    (start subscriber immediate hwms).Inv where
  ok := .empty
  stays := nofun
  supplies i := by
    exact Pair.Supplies.attached (hwms i)
  flushed i := Pair.Handed.attached (hwms i)
  idle _ := rfl
  level _ := nofun
  ready i owes := by cases owes.1
  frames := ⟨nofun, nofun⟩

theorem pipe (inv : s.Inv) (stays : i ∈ s.dist.pipes.items → (t.pipe .first).deleted = false)
    (supplies : t.Supplies .first (s.offeredTo i) (s.pending i)) (flushed : t.Handed .first)
    (ready : s.owes i → (t.pipe .first).state = .active → (t.pipe .first).outActive = true) :
    Inv { s with pair := update s.pair i t } where
  ok := inv.ok
  stays := (forall_update_iff s.pair fun j t =>
    j ∈ s.dist.pipes.items → (t.pipe .first).deleted = false).mpr
      ⟨stays, fun j _ => inv.stays j⟩
  supplies := (forall_update_iff s.pair fun j t =>
    t.Supplies .first (s.offeredTo j) (s.pending j)).mpr ⟨supplies, fun j _ => inv.supplies j⟩
  flushed := (forall_update_iff s.pair fun _ t => t.Handed .first).mpr
    ⟨flushed, fun j _ => inv.flushed j⟩
  idle := inv.idle
  level := inv.level
  ready := (forall_update_iff s.pair fun j t => s.owes j →
    (t.pipe .first).state = .active → (t.pipe .first).outActive = true).mpr
      ⟨ready, fun j _ => inv.ready j⟩
  frames := ⟨inv.frames.begun, inv.frames.offered⟩

/-- Pipes were moved about. In the middle of a message only a pipe that is closed may lose its
    place among those that have the first frames. -/
theorem move (inv : s.Inv) (ok : d.Ok) (more : d.more = s.dist.more)
    (stays : ∀ j ∈ d.pipes.items, ((s.pair j).pipe .first).deleted = false)
    (matching : s.dist.more = true → ∀ j, d.isMatching j → s.dist.isMatching j)
    (lost : s.dist.more = true → ∀ j, s.dist.isMatching j → ¬ d.isMatching j →
      ((s.pair j).pipe .first).state ≠ .active)
    (level : s.subscriber = true → s.dist.more = true → ∀ j, d.isMatching j ↔ d.isActive j) :
    Inv { s with dist := d } where
  ok := ok
  stays := stays
  supplies j := by
    by_cases owes : owes { s with dist := d } j
    · have before : s.owes j := ⟨more ▸ owes.1, matching (more ▸ owes.1) j owes.2⟩
      have supplies := inv.supplies j
      rw [pending, if_pos before] at supplies
      rw [pending, if_pos owes]
      exact supplies
    · rw [pending_of_not owes]
      by_cases before : s.owes j
      · refine (inv.supplies j).of_closed (lost before.1 j before.2 fun still => owes ⟨?_, still⟩)
        exact more.trans before.1
      · have supplies := inv.supplies j
        rwa [pending_of_not before] at supplies
  flushed := inv.flushed
  idle idle := inv.idle (more ▸ idle)
  level subscriber midway := level subscriber (more ▸ midway)
  ready j owes := inv.ready j ⟨more ▸ owes.1, matching (more ▸ owes.1) j owes.2⟩
  frames := ⟨inv.frames.begun, inv.frames.offered⟩

theorem rearrange (inv : s.Inv) (idle : s.dist.more = false) (ok : d.Ok)
    (more : d.more = s.dist.more)
    (members : ∀ j ∈ d.pipes.items, j ∈ s.dist.pipes.items) : Inv { s with dist := d } := by
  refine inv.move ok more (fun j member => inv.stays j (members j member)) ?_ ?_ ?_
  · simp [idle]
  · simp [idle]
  · simp [idle]

theorem direct (inv : s.Inv) (stays : ((s.pair i).pipe .first).deleted = false) (free : ¬ s.owes i)
    (single : ∀ m ∈ subscriptions, m.single = true)
    (done : s.sendDirect i subscriptions lock = .ok s') : s'.Inv := by
  obtain ⟨t, sent, rfl⟩ := bind_return.mp done
  have supplies := inv.supplies i
  rw [pending_of_not free] at supplies
  obtain ⟨supplies', flushed, stays'⟩ := supplies.sendAll (inv.flushed i) stays single sent
  refine ⟨inv.ok, ?_, ?_, ?_, inv.idle, inv.level, ?_, inv.frames.begun, fun o member => ?_⟩
  · exact (forall_update_iff s.pair fun j t =>
      j ∈ s.dist.pipes.items → (t.pipe .first).deleted = false).mpr
        ⟨fun _ => stays', fun j _ => inv.stays j⟩
  · intro j
    rw [offeredTo_direct { s with pair := update s.pair i t }]
    revert j
    refine (forall_update_iff s.pair fun j t => t.Supplies .first
      (s.offeredTo j ++ if j = i then subscriptions.map ([·]) else []) (s.pending j)).mpr
        ⟨?_, fun j other => ?_⟩
    · rwa [if_pos rfl, pending_of_not free]
    · simpa [other] using inv.supplies j
  · exact (forall_update_iff s.pair fun _ t => t.Handed .first).mpr
      ⟨flushed, fun j _ => inv.flushed j⟩
  · exact (forall_update_iff s.pair fun j t => s.owes j →
      (t.pipe .first).state = .active → (t.pipe .first).outActive = true).mpr
        ⟨fun owes => absurd owes free, fun j _ => inv.ready j⟩
  · rcases List.mem_append.mp member with old | new
    · exact inv.frames.offered o old
    · obtain ⟨m, there, rfl⟩ := List.mem_map.mp new
      have last : m.more = false := by
        have := single m there
        simp only [Msg.single, Bool.and_eq_true, Bool.not_eq_true'] at this
        exact this.1
      exact ⟨[], m, rfl, (by simp), last⟩

end Inv

def sending (s : Distributor ι) : Dist ι :=
  if s.subscriber then { s.dist with matching := s.dist.active } else s.dist

omit [DecidableEq ι] in
theorem sending_pipes (s : Distributor ι) : s.sending.pipes = s.dist.pipes := by
  unfold sending; split <;> rfl

theorem send_eq (done : s.send msg lock = .ok s') :
    ∃ d pair, s.sending.distribute s.pair msg lock = .ok (d, pair) ∧ s' = handed
      { s with
        dist := { d with active := if msg.more then d.active else d.eligible, more := msg.more }
        pair := pair } msg := by
  obtain ⟨⟨d', pair⟩, sent, same⟩ := bind_ok.mp done
  have sent' : s.sending.sendToMatching s.pair msg lock = .ok (d', pair) := by
    unfold sending
    unfold pass at sent
    split at sent
    · rename_i subscriber
      rw [if_pos subscriber]
      exact sent
    · rename_i other
      rw [if_neg other]
      exact sent
  obtain ⟨⟨d, pair'⟩, distributed, ⟨⟩⟩ := bind_ok.mp sent'
  exact ⟨d, pair, distributed, (Except.ok.inj same).symm⟩

namespace Inv

section

variable (inv : s.Inv)
include inv

theorem sending_ok : s.sending.Ok := by
  unfold sending
  split
  · exact inv.ok.all
  · exact inv.ok

theorem sending_owes (midway : s.dist.more = true) (i : ι) : s.sending.isMatching i ↔ s.owes i := by
  unfold sending owes
  split
  · rename_i subscriber
    rw [inv.level subscriber midway i]
    simp [midway, Dist.isMatching, Dist.isActive]
  · simp [midway]

theorem pending_of_sending (matching : s.sending.isMatching i) : s.pending i = s.begun := by
  cases midway : s.dist.more with
  | true => exact if_pos ((inv.sending_owes midway i).mp matching)
  | false => simp [pending, inv.idle midway]

theorem pending_of_not_sending (skipped : ¬ s.sending.isMatching i) : s.pending i = [] := by
  apply pending_of_not
  intro owes
  exact skipped ((inv.sending_owes owes.1 i).mpr owes)

theorem refused (matching : s.sending.isMatching i)
    (room : s.dist.more = true → ((s.pair i).pipe .first).state = .active →
      ((s.pair i).pipe .first).checkHwm = true) (writing : (s.pair i).Writing .first msg false t) :
    t.Supplies .first (s.offeredTo i) [] := by
  have stays := inv.stays i (by
    have member := matching.mem
    rwa [sending_pipes] at member)
  have supplies := (inv.supplies i).refused stays writing
  cases midway : s.dist.more with
  | false => rwa [inv.pending_of_sending matching, inv.idle midway] at supplies
  | true =>
    apply supplies.of_closed
    intro active
    rw [writing.state_eq.1] at active
    have ready := inv.ready i ((inv.sending_owes midway i).mp matching) active
    cases writing with
    | refused closed =>
      rcases closed with asleep | closed
      · rw [ready] at asleep
        cases asleep
      · exact closed active
    | full _ _ full =>
      rw [room midway active] at full
      cases full

section

variable (data : msg.isDelimiter = false)
  (room : s.dist.more = true → ∀ i ∈ s.dist.pipes.items, s.dist.isMatching i →
    ((s.pair i).pipe .first).state = .active → ((s.pair i).pipe .first).checkHwm = true)
include data room

theorem sent {pair : ι → Pair}
    (result : Dist.Distributed msg s.sending.isMatching s.sending s.pair d pair) (i : ι) :
    (pair i).Supplies .first (s.offeredTo i ++ if msg.more then [] else [s.begun ++ [msg]])
      (if msg.more = true ∧ d.isMatching i then s.begun ++ [msg] else []) ∧
      (pair i).Handed .first ∧ (d.isMatching i → ((pair i).pipe .first).outActive = true) := by
  by_cases matching : s.sending.isMatching i
  · have member : i ∈ s.dist.pipes.items := by simpa [sending_pipes] using matching.mem
    obtain ⟨b, offered, still, -, -⟩ := result.tried i matching
    cases b with
    | true =>
      have supplies := inv.supplies i
      rw [inv.pending_of_sending matching] at supplies
      simp only [still, and_true]
      obtain ⟨supplies', flushed⟩ := offered.supplies supplies (inv.flushed i)
        (inv.stays i member) (forall_mem_concat (fun m old => (inv.frames.begun m old).1) data)
      exact ⟨supplies', flushed, fun _ => offered.outActive⟩
    | false =>
      cases offered with
      | refused writing =>
        have closed := inv.refused matching (fun midway => room midway i member
          ((inv.sending_owes midway i).mp matching).2) writing
        simp only [still, Bool.false_eq_true, and_false]
        exact ⟨closed.mono (List.sublist_append_left _ _), (inv.flushed i).refused writing,
          nofun⟩
  · obtain ⟨same, still, -, -⟩ := result.others i matching
    have supplies := inv.supplies i
    rw [inv.pending_of_not_sending matching] at supplies
    simp only [same, still, matching, and_false]
    exact ⟨supplies.mono (List.sublist_append_left _ _), inv.flushed i, nofun⟩

theorem send (done : s.send msg lock = .ok s') : s'.Inv := by
  obtain ⟨d, pair, sent, rfl⟩ := send_eq done
  have stays (i : ι) (member : i ∈ s.sending.pipes.items) :
      ((s.pair i).pipe .first).deleted = false := by
    rw [sending_pipes] at member
    exact inv.stays i member
  have result :=
    Dist.distribute_distributed inv.sending_ok (fun i => (inv.supplies i).sound) stays sent
  have each := inv.sent data room result
  have frames : Frames { s with
      dist := { d with active := if msg.more then d.active else d.eligible, more := msg.more }
      pair := pair } := ⟨inv.frames.begun, inv.frames.offered⟩
  have owes (i : ι) : owes (Distributor.handed { s with
      dist := { d with active := if msg.more then d.active else d.eligible, more := msg.more }
      pair := pair } msg) i ↔ msg.more = true ∧ d.isMatching i := by
    simp only [Distributor.owes, handed_dist]
    exact Iff.rfl
  refine ⟨?_, fun i member => ?_, fun i => ?_, fun i => ?_, fun idle => ?_, fun subscriber midway i => ?_,
    fun i there _ => ?_, frames.handed data⟩
  · rw [handed_dist]
    exact result.ok.sent msg.more
  · rw [handed_dist] at member
    have there := (result.mem i).mp member
    simp only [handed_pair]
    by_cases matching : s.sending.isMatching i
    · obtain ⟨b, offered, -⟩ := result.tried i matching
      exact offered.deleted.trans (stays i there)
    · rw [(result.others i matching).1]
      exact stays i there
  · rw [handed_pair, offeredTo_handed]
    have pending : pending (Distributor.handed { s with
        dist := { d with active := if msg.more then d.active else d.eligible, more := msg.more }
        pair := pair } msg) i =
          if msg.more = true ∧ d.isMatching i then s.begun ++ [msg] else [] := by
      rw [Distributor.pending]
      simp only [owes i]
      split
      · rename_i both
        simp [Distributor.handed, both.1]
      · rfl
    rw [pending]
    exact (each i).1
  · rw [handed_pair]
    exact (each i).2.1
  · rw [handed_dist] at idle
    simp only at idle
    simp [Distributor.handed, idle]
  · rw [handed_subscriber] at subscriber
    rw [handed_dist] at midway ⊢
    simp only at midway
    have same : s.sending.isMatching i ↔ s.sending.isActive i := by
      simp [sending, show s.subscriber = true from subscriber, Dist.isMatching, Dist.isActive]
    simp only [midway]
    by_cases matching : s.sending.isMatching i
    · obtain ⟨b, -, still, active, -⟩ := result.tried i matching
      exact still.trans active.symm
    · obtain ⟨-, still, active, -⟩ := result.others i matching
      exact still.trans (same.trans active.symm)
  · rw [handed_pair]
    exact (each i).2.2 ((owes i).mp there).2

end

theorem attach (stays : ((s.pair i).pipe .first).deleted = false)
    (single : ∀ m ∈ subscriptions, m.single = true)
    (done : s.step (.attach i subscriptions lock) = .ok s') : s'.Inv := by
  obtain ⟨d, attached, sent⟩ := bind_ok.mp done
  obtain ⟨new, becomes⟩ := Dist.attach_becomes inv.ok attached
  have moved : Inv { s with dist := d } := by
    refine inv.move becomes.ok becomes.more (fun j member => ?_) ?_ ?_ ?_
    · rcases (becomes.mem j).mp member with old | rfl
      · exact inv.stays j old
      · exact stays
    · exact fun _ j => (becomes.isMatching j).mp
    · intro _ j before after
      exact absurd ((becomes.isMatching j).mpr before) after
    · intro subscriber midway j
      rw [becomes.isMatching, becomes.isActive, inv.level subscriber midway j]
      simp [midway]
  refine moved.direct stays ?_ single sent
  rintro ⟨-, matching⟩
  exact new ((becomes.isMatching i).mp matching).mem

theorem activated (member : i ∈ s.dist.pipes.items) (free : ¬ s.owes i)
    (done : s.dist.activated i = .ok d) : Inv { s with dist := d } := by
  obtain ⟨ok, more, mem, keep⟩ := Dist.activated_ok inv.ok done
  have stays (j : ι) (there : j ∈ d.pipes.items) : ((s.pair j).pipe .first).deleted = false :=
    inv.stays j ((mem j).mp there)
  cases midway : s.dist.more with
  | false => exact inv.rearrange midway ok more fun j => (mem j).mp
  | true =>
    obtain ⟨matching, active, keep⟩ := keep midway
    have outside : s.dist.matching ≤ s.dist.pipes.index i := by
      by_contra inside
      exact free ⟨midway, (ArrayT.before_index member).mpr (by omega)⟩
    have le := inv.ok.matching_le
    have le' := inv.ok.active_le
    have same (j : ι) : d.isMatching j ↔ s.dist.isMatching j := by
      rw [Dist.isMatching, matching]
      exact keep _ outside (by omega) j
    refine inv.move ok more stays (fun _ j => (same j).mp)
      (fun _ j before after => absurd ((same j).mpr before) after) ?_
    intro subscriber _ j
    -- the pipe is not active either
    have beyond : s.dist.active ≤ s.dist.pipes.index i := by
      by_contra inside
      have there : s.dist.isActive i := (ArrayT.before_index member).mpr (by omega)
      exact free ⟨midway, (inv.level subscriber midway i).mpr there⟩
    have level : d.isActive j ↔ s.dist.isActive j := by
      rw [Dist.isActive, active]
      exact keep _ beyond le' j
    rw [same, level]
    exact inv.level subscriber midway j

theorem terminated (member : i ∈ s.dist.pipes.items)
    (closed : ((s.pair i).pipe .first).state ≠ .active) (done : s.dist.pipeTerminated i = .ok d) :
    Inv { s with dist := d } ∧ i ∉ d.pipes.items := by
  have becomes := Dist.pipeTerminated_becomes inv.ok member done
  refine ⟨?_, fun still => ((becomes.mem i).mp still).2 rfl⟩
  refine inv.move becomes.ok becomes.more
    (fun j there => inv.stays j ((becomes.mem j).mp there).1)
    (fun _ j matching => ((becomes.isMatching j).mp matching).1) (fun _ j before after => ?_) ?_
  · have same : j = i := by
      by_contra other
      exact after ((becomes.isMatching j).mpr ⟨before, other⟩)
    rwa [same]
  · intro subscriber midway j
    rw [becomes.isMatching, becomes.isActive, inv.level subscriber midway j]

theorem hiccuped {k : Nat} {event : Option Event}
    (head : ((s.pair i).mailbox .first).head? = some (.hiccup k)) (calm : ¬ s.interrupts i)
    (single : ∀ m ∈ subscriptions, m.single = true) (outcome : (s.pair i).Outcome .first .deliver t)
    (told : event = if ((s.pair i).pipe .first).state = .active then some .hiccuped else none)
    (state : (t.pipe .first).state = ((s.pair i).pipe .first).state)
    (deleted : (t.pipe .first).deleted = false)
    (done : react { s with pair := update s.pair i t } i subscriptions lock event =
      .ok s') : s'.Inv := by
  have waiting : (s.pair i).mailbox .first ≠ [] := by
    intro empty
    simp [empty] at head
  have supplies := (inv.supplies i).hiccuped waiting head outcome
  have flushed := (inv.flushed i).writer outcome rfl
  by_cases active : ((s.pair i).pipe .first).state = .active
  · rw [told, if_pos active] at done
    simp only [react, Distributor.hiccuped] at done
    split at done
    · -- the pipe is closed at once
      obtain ⟨v, ended, rfl⟩ := bind_return.mp done
      simp only [update_self] at ended
      have outcome' : t.Outcome .first (.terminate false lock) v :=
        supplies.sound.outcome deleted nofun ended
      have closed := outcome'.closed
      simp only [update_idem]
      refine inv.pipe (fun _ => (outcome'.deleted nofun).trans deleted) ?_
        (flushed.writer outcome' rfl) fun _ live => absurd live closed
      exact (supplies.writer (a := .terminate false lock) deleted outcome' rfl nofun).of_closed
        closed
    · rename_i patient
      split at done
      · have free : ¬ s.owes i := by
          rintro ⟨midway, matching⟩
          refine calm ⟨⟨?_, by simpa using patient⟩, active, midway, matching⟩
          simp [head, Command.isHiccup]
        rw [← pending_of_not free] at supplies
        have next := inv.pipe (fun _ => deleted) supplies flushed fun owes => absurd owes free
        exact next.direct (by simpa using deleted) free single done
      · cases done
  · rw [told, if_neg active] at done
    cases done
    have closed : (t.pipe .first).state ≠ .active := by rwa [state]
    exact inv.pipe (fun _ => deleted) (supplies.of_closed closed) flushed
      fun _ live => absurd live closed

theorem deliver (member : i ∈ s.dist.pipes.items) (waiting : (s.pair i).mailbox .first ≠ [])
    (single : ∀ m ∈ subscriptions, m.single = true) (calm : ¬ s.interrupts i)
    (done : s.step (.deliver i subscriptions lock) = .ok s') : s'.Inv := by
  obtain ⟨⟨t, event⟩, delivered, reacts⟩ := bind_ok.mp done
  have before := inv.supplies i
  obtain ⟨c, rest, at_head, receiving, outcome⟩ := before.sound.receiving waiting delivered
  have stays := inv.stays i member
  have flushed := (inv.flushed i).writer outcome rfl
  have supplies (quiet : c.isHiccup = false) : t.Supplies .first (s.offeredTo i) (s.pending i) := by
    refine before.writer (a := .deliver) waiting outcome rfl fun _ k head => ?_
    obtain rfl : c = .hiccup k := by simpa [at_head] using head
    cases quiet
  have ready (owes : s.owes i) (active : (t.pipe .first).state = .active) :=
    outcome.outActive rfl nofun active (inv.ready i owes (outcome.active active))
  have dead (closed : ((s.pair i).pipe .first).state ≠ .active) :
      (t.pipe .first).state ≠ .active := fun active => closed (outcome.active active)
  cases receiving with
  | writeWoken asleep active =>
    have free : ¬ s.owes i := by
      intro owes
      rw [Pair.setMailbox_pipe, inv.ready i owes active] at asleep
      cases asleep
    obtain ⟨d, woken, rfl⟩ := bind_return.mp reacts
    exact (inv.pipe (fun _ => by simpa using stays) (supplies rfl) flushed ready).activated
      member free woken
  | leaves state | answersAndLeaves state =>
    have closed : ((s.pair i).pipe .first).state ≠ .active := by
      intro active
      simp [active] at state
    obtain ⟨d, removed, rfl⟩ := bind_return.mp reacts
    obtain ⟨next, gone⟩ := inv.terminated member closed removed
    exact next.pipe (fun still => absurd still gone) ((supplies rfl).of_closed (dead closed))
      flushed fun _ active => absurd active (dead closed)
  | readWoken | readIgnored | writeNoted | published | limited | waits | answers | crosses =>
    cases reacts
    exact inv.pipe (fun _ => by simpa [Pipe.setHwms] using stays) (supplies rfl) flushed ready
  | replaced here found =>
    exact inv.hiccuped (by rw [at_head]; rfl) calm single outcome rfl (by simp)
      (by simpa using stays) reacts

theorem step (steady : s.Steady a) (taken : s.step a = .ok s') : s'.Inv := by
  obtain ⟨allowed, calm⟩ := steady
  cases a with
  | attach i subscriptions lock => exact inv.attach allowed.1 allowed.2 taken
  | matchPipe i =>
    obtain ⟨d, matched, rfl⟩ := bind_return.mp taken
    obtain ⟨-, idle, member⟩ := allowed
    have becomes := Dist.matchPipe_becomes inv.ok idle member matched
    exact inv.rearrange idle becomes.ok becomes.more fun j => (becomes.mem j).mp
  | reverseMatch =>
    obtain ⟨d, reversed, rfl⟩ := bind_return.mp taken
    have becomes := Dist.reverseMatch_becomes inv.ok allowed.2 reversed
    exact inv.rearrange allowed.2 becomes.ok becomes.more fun j => (becomes.mem j).mp
  | unmatch =>
    cases taken
    exact inv.rearrange allowed.2 inv.ok.unmatch rfl fun _ => id
  | send msg lock => exact inv.send allowed calm taken
  | call i a =>
    obtain ⟨t, done, rfl⟩ := bind_return.mp taken
    obtain ⟨member, fair, aside, other, call⟩ := allowed
    have supplies := inv.supplies i
    have outcome := supplies.sound.outcome fair.1 fair.silent done
    refine inv.pipe (fun _ => ?_) (supplies.writer fair.1 outcome aside fun same => absurd same call)
      ((inv.flushed i).writer outcome aside) fun owes active => ?_
    · rw [outcome.deleted call, inv.stays i member]
    · exact outcome.outActive aside other active (inv.ready i owes (outcome.active active))
  | deliver i subscriptions lock => exact inv.deliver allowed.1 allowed.2.1 allowed.2.2 calm taken
  | peer i a =>
    obtain ⟨t, done, rfl⟩ := bind_return.mp taken
    have supplies := inv.supplies i
    have outcome := supplies.sound.outcome allowed.1 allowed.silent done
    have untouched : t.pipe .first = (s.pair i).pipe .first := outcome.pipe_peer
    refine inv.pipe (fun member => ?_) (supplies.reader allowed.1 outcome)
      ((inv.flushed i).reader outcome) ?_
    · rw [untouched, inv.stays i member]
    · rw [untouched]
      exact inv.ready i

end

end Inv

theorem sendDirect_log (done : s.sendDirect p subscriptions lock = .ok s') :
    s'.dist = s.dist ∧ s'.begun = s.begun ∧ s.offered <+: s'.offered := by
  obtain ⟨t, -, rfl⟩ := bind_return.mp done
  exact ⟨rfl, rfl, List.prefix_append ..⟩

theorem step_log (ok : s.dist.Ok) (allowed : s.Allowed a) (other : ∀ msg lock, a ≠ .send msg lock)
    (taken : s.step a = .ok s') :
    s'.dist.more = s.dist.more ∧ s'.begun = s.begun ∧ s.offered <+: s'.offered := by
  cases a with
  | attach i subscriptions lock =>
    obtain ⟨d, attached, sent⟩ := bind_ok.mp taken
    obtain ⟨dist, begun, offered⟩ := sendDirect_log sent
    refine ⟨?_, begun, offered⟩
    rw [dist]
    exact (Dist.attach_becomes ok attached).2.more
  | matchPipe i =>
    obtain ⟨d, matched, rfl⟩ := bind_return.mp taken
    exact ⟨(Dist.matchPipe_becomes ok allowed.2.1 allowed.2.2 matched).more, rfl,
      List.prefix_rfl⟩
  | reverseMatch =>
    obtain ⟨d, reversed, rfl⟩ := bind_return.mp taken
    exact ⟨(Dist.reverseMatch_becomes ok allowed.2 reversed).more, rfl, List.prefix_rfl⟩
  | unmatch =>
    cases taken
    exact ⟨rfl, rfl, List.prefix_rfl⟩
  | send msg lock => exact absurd rfl (other msg lock)
  | call i a | peer i a =>
    obtain ⟨t, -, rfl⟩ := bind_return.mp taken
    exact ⟨rfl, rfl, List.prefix_rfl⟩
  | deliver i subscriptions lock =>
    obtain ⟨⟨t, event⟩, -, reacts⟩ := bind_ok.mp taken
    have quiet {s' : Distributor ι} (same : Except.ok { s with pair := update s.pair i t } =
        (Except.ok s' : Except Fault _)) :
        s'.dist.more = s.dist.more ∧ s'.begun = s.begun ∧ s.offered <+: s'.offered := by
      cases same
      exact ⟨rfl, rfl, List.prefix_rfl⟩
    cases event with
    | none => exact quiet reacts
    | some event =>
      cases event with
      | readActivated | statsPublish => exact quiet reacts
      | writeActivated =>
        obtain ⟨d, woken, rfl⟩ := bind_return.mp reacts
        exact ⟨(Dist.activated_ok ok woken).2.1, rfl, List.prefix_rfl⟩
      | pipeTerminated =>
        obtain ⟨d, removed, rfl⟩ := bind_return.mp reacts
        exact ⟨(Dist.pipeTerminated_becomes ok allowed.1 removed).more, rfl,
          List.prefix_rfl⟩
      | hiccuped =>
        simp only [react, hiccuped] at reacts
        split at reacts
        · obtain ⟨v, -, rfl⟩ := bind_return.mp reacts
          exact ⟨rfl, rfl, List.prefix_rfl⟩
        · split at reacts
          · obtain ⟨dist, begun, offered⟩ := sendDirect_log reacts
            exact ⟨by rw [dist], begun, offered⟩
          · cases reacts

/-- In every run in which no pipe that has the first frames of a message is full at a later one,
    or gets a new queue, the pipes carry whole messages. -/
theorem steady_distribution_is_whole (subscriber immediate : Bool) (hwms : ι → End → Int)
    {s : Distributor ι} (reached : Reaches step Steady (start subscriber immediate hwms) s) :
    s.Whole := by
  have inv : s.Inv := reached.invariant (.start subscriber immediate hwms)
    fun _ _ _ inv steady taken => inv.step steady taken
  exact inv.whole

theorem steady_distribution_is_whole_two :
    ∃ s : Distributor (Fin 2), Reaches step Steady (start false false fun _ _ => 2) s ∧
      ((s.pair 0).queue .second 0).map Upipe.flushed =
        some [{ flags := MsgFlag.more, data := [2] }, { data := [3] }] ∧ s.Whole :=
  exists_run_and
    [.attach 0 [] true, .attach 1 [] true, .matchPipe 1, .send { data := [1] } true, .unmatch,
      .matchPipe 0, .send { flags := MsgFlag.more, data := [2] } true, .call 1 (.setHwms 0 1),
      .send { data := [3] } true]
    (by decide +kernel) fun _ reached _ => steady_distribution_is_whole _ _ _ reached

/-- The limit of a pipe is lowered between two frames. The second frame is refused, and the
    first one stays where it is and goes out with the next message. And a pipe that gets a new
    queue between two frames has only the second in it. -/
theorem interrupted_message_is_mixed :
    (∃ s : Distributor (Fin 1), Reaches step Allowed (start false false fun _ _ => 2) s ∧
      ((s.pair 0).queue .second 0).map Upipe.flushed =
        some [{ data := [1] }, { flags := MsgFlag.more, data := [2] }, { data := [4] }] ∧
      s.offeredTo 0 = [[{ data := [1] }], [{ flags := MsgFlag.more, data := [2] }, { data := [3] }],
        [{ data := [4] }]] ∧ ¬ s.Whole) ∧
    ∃ s : Distributor (Fin 1), Reaches step Allowed (start true false fun _ _ => 2) s ∧
      ((s.pair 0).queue .second 1).map Upipe.flushed = some [{ data := [2] }] ∧
      s.offeredTo 0 = [[{ flags := MsgFlag.more, data := [1] }, { data := [2] }]] ∧ ¬ s.Whole := by
  constructor
  · refine exists_run_and₂
      [.attach 0 [] true, .matchPipe 0, .send { data := [1] } true, .unmatch, .matchPipe 0,
        .send { flags := MsgFlag.more, data := [2] } true, .call 0 (.setHwms 0 1),
        .send { data := [3] } true, .unmatch, .peer 0 .read, .deliver 0 [] true, .matchPipe 0,
        .send { data := [4] } true]
      (by decide +kernel) fun s _ flushed offered whole => ?_
    have together := Balancer.message_of_frame (m := { flags := MsgFlag.more, data := [2] })
      flushed offered (whole.2 0 0) (by decide)
    exact absurd together (by decide)
  · refine exists_run_and₂
      [.attach 0 [] true, .send { flags := MsgFlag.more, data := [1] } true, .peer 0 .hiccup,
        .deliver 0 [] true, .send { data := [2] } true]
      (by decide +kernel) fun s _ flushed offered whole => ?_
    have together := Balancer.message_of_frame (m := { data := [2] }) flushed offered (whole.2 0 1)
      (by decide)
    exact absurd together (by decide)

end Distributor

end Zmq
