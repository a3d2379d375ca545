import Zmq.Pattern.Notification
import Zmq.Pattern.Publication

/-! # The pipes that a publisher remembers

In manual mode an `xpub_t` keeps pointers to its pipes outside of the distributor: in
`_last_pipe`, in `_pending_pipes` and in a second trie. `xpipe_terminated` cleans one trie or
both, as the mode of that moment says, and neither of the other two.

A first frame that is refused has already used up `_last_pipe`.
-/

namespace Zmq

open Lib

structure Mtrie.Free {ι : Type} (gone : List ι) (n : Mtrie ι) : Prop where
  ok : n.Ok
  absent : ∀ p ∈ gone, ∀ topic, p ∉ n.subscribers topic

namespace Mtrie.Free

variable {ι : Type} [LinearOrder ι] {gone : List ι} {n n' : Mtrie ι} {pipe : ι}
  {topic : List UInt8}

theorem add {b : Bool} (free : n.Free gone) (alive : pipe ∉ gone)
    (done : n.add pipe topic = .ok (b, n')) : n'.Free gone := by
  obtain ⟨n'', added, ok, members⟩ := add_spec free.ok pipe topic
  rw [added] at done
  cases done
  refine ⟨ok, fun p member t inside => ?_⟩
  rcases (members t p).mp inside with old | ⟨-, rfl⟩
  · exact free.absent p member t old
  · exact alive member

theorem rm {result : RmResult} (free : n.Free gone) (done : n.rm pipe topic = .ok (result, n')) :
    n'.Free gone := by
  obtain ⟨_, n'', removed, ok, members, -⟩ := rm_spec free.ok pipe topic
  rw [removed] at done
  cases done
  exact ⟨ok, fun p member t inside => free.absent p member t ((members t p).mp inside).1⟩

theorem rmValue {callOnUniq : Bool} {calls : List (List UInt8)} (free : n.Free gone)
    (done : n.rmValue pipe callOnUniq [] = .ok (calls, n')) : n'.Free (pipe :: gone) := by
  obtain ⟨_, n'', removed, ok, members, -⟩ := rmValue_spec free.ok pipe callOnUniq
  rw [removed] at done
  cases done
  refine ⟨ok, fun p member t inside => ?_⟩
  obtain ⟨inside, other⟩ := (members t p).mp inside
  rcases List.mem_cons.mp member with same | member
  · exact other same
  · exact free.absent p member t inside

end Mtrie.Free

namespace Xpub

variable {ι : Type} [LinearOrder ι] {s s' : Xpub ι} {gone : List ι} {pipe : ι} {b : Bool}
  {topic : List UInt8} {a : Action ι} {lock : Bool} {msg : Msg}

structure Forgotten (s : Xpub ι) (p : ι) : Prop where
  last : s.lastPipe ≠ some p
  pending : some p ∉ s.pendingPipes
  subscriptions : ∀ topic, p ∉ s.subscriptions.subscribers topic
  manualSubscriptions : ∀ topic, p ∉ s.manualSubscriptions.subscribers topic

structure Clear (gone : List ι) (s : Xpub ι) : Prop where
  subscriptions : s.subscriptions.Free gone
  manualSubscriptions : s.manualSubscriptions.Free gone
  last : ∀ p ∈ gone, s.lastPipe ≠ some p
  pending : ∀ p ∈ gone, some p ∉ s.pendingPipes

omit [LinearOrder ι] in
theorem foldl_sendUnsubscription (topics : List (List UInt8)) (s : Xpub ι) :
    (topics.foldl sendUnsubscription s).subscriptions = s.subscriptions ∧
      (topics.foldl sendUnsubscription s).manualSubscriptions = s.manualSubscriptions ∧
      ((topics.foldl sendUnsubscription s).lastPipe = s.lastPipe ∨
        (topics.foldl sendUnsubscription s).lastPipe = none) ∧
      (s.options.manual = true → s.options.pub = false → topics ≠ [] →
        (topics.foldl sendUnsubscription s).lastPipe = none) ∧
      ∀ p, some p ∈ (topics.foldl sendUnsubscription s).pendingPipes → some p ∈ s.pendingPipes := by
  cases pub : s.options.pub with
  | false =>
    rw [sendUnsubscription_all topics s pub]
    refine ⟨rfl, rfl, ?_, fun manual _ some => by simp [manual, some], fun p => ?_⟩
    · simp only
      split
      · exact .inr rfl
      · exact .inl rfl
    · simp only
      split
      · simp
      · exact id
  | true =>
    have kept : topics.foldl sendUnsubscription s = s := by
      induction topics with
      | nil => rfl
      | cons topic rest ih => simpa [sendUnsubscription, pub] using ih
    rw [kept]
    exact ⟨rfl, rfl, .inl rfl, by simp, fun _ => id⟩

namespace Clear

variable (clear : s.Clear gone)
include clear

omit [LinearOrder ι] in
theorem same (same : s.Same s') (last : s'.lastPipe = s.lastPipe ∨ s'.lastPipe = none) :
    s'.Clear gone where
  subscriptions := same.subscriptions ▸ clear.subscriptions
  manualSubscriptions := same.manualSubscriptions ▸ clear.manualSubscriptions
  last p member := by
    rcases last with last | last
    · exact last ▸ clear.last p member
    · simp [last]
  pending := same.pendingPipes ▸ clear.pending

theorem update {subscribe : Bool} (alive : pipe ∉ gone)
    (done : s.update pipe topic subscribe = .ok (b, s')) : s'.Clear gone := by
  have queued : ∀ p ∈ gone, some p ∉ s.pendingPipes ++ [some pipe] := by
    intro p member inside
    rcases List.mem_append.mp inside with old | new
    · exact clear.pending p member old
    · obtain rfl : p = pipe := by simpa using new
      exact alive member
  unfold Xpub.update at done
  -- in manual mode the pipe goes to the second trie and to the queue
  split at done <;> split at done <;> obtain ⟨⟨_, trie⟩, changed, rest⟩ := bind_ok.mp done <;>
    cases rest
  · have manual := clear.manualSubscriptions.add alive changed
    exact { clear with manualSubscriptions := manual, pending := queued }
  · have manual := clear.manualSubscriptions.rm changed
    exact { clear with manualSubscriptions := manual, pending := queued }
  · exact { clear with subscriptions := clear.subscriptions.add alive changed }
  · exact { clear with subscriptions := clear.subscriptions.rm changed }

theorem handle {subscribe : Bool} (alive : pipe ∉ gone)
    (done : s.handle pipe topic subscribe = .ok s') : s'.Clear gone := by
  obtain ⟨⟨notify, s₁⟩, updated, done⟩ := bind_ok.mp done
  have next := clear.update alive updated
  simp only at done
  split at done
  · cases done
    exact { next with }
  · cases done
    exact next

theorem receive (alive : pipe ∉ gone) (done : s.receive pipe msg = .ok s') : s'.Clear gone := by
  have next (more processes : Bool) :
      Clear gone { s with moreRecv := more, processSubscribe := processes } :=
    { clear with }
  unfold Xpub.receive at done
  simp only at done
  split at done
  · exact (next _ _).handle alive done
  · exact (next _ _).handle alive done
  · cases done
    split
    · exact next _ _
    · exact { clear with }

theorem enter {toAll : Bool} (alive : pipe ∉ gone)
    (done : s.enter pipe toAll lock = .ok s') : s'.Clear gone := by
  have first : (s.setNodelay pipe).Clear gone := by
    unfold setNodelay
    split
    · exact { clear with }
    · exact clear
  obtain ⟨d, -, done⟩ := bind_ok.mp done
  obtain ⟨s₁, subscribed, welcomed⟩ := bind_ok.mp done
  have second : s₁.Clear gone := by
    unfold subscribeToAll at subscribed
    split at subscribed
    · obtain ⟨⟨b, trie⟩, added, rfl⟩ := bind_return.mp subscribed
      exact { first with subscriptions := first.subscriptions.add alive added }
    · cases subscribed
      exact { first with }
  refine second.same (welcome_same welcomed) (.inl ?_)
  unfold welcome at welcomed
  split at welcomed
  · cases welcomed
    rfl
  · obtain ⟨⟨ok, t⟩, -, welcomed⟩ := bind_ok.mp welcomed
    simp only at welcomed
    split at welcomed
    · obtain ⟨v, -, rfl⟩ := bind_return.mp welcomed
      rfl
    · cases welcomed

omit [LinearOrder ι] in
theorem recv : s.xrecv.2.Clear gone := by
  unfold xrecv
  split
  · exact clear
  · split
    · exact clear
    · simp only
      split
      · split
        · exact { clear with }
        · rename_i first rest pending
          have old := clear.pending
          rw [pending] at old
          refine ⟨clear.subscriptions, clear.manualSubscriptions, fun p member last => ?_,
            fun p member later => old p member (List.mem_cons_of_mem _ later)⟩
          exact old p member (last ▸ List.mem_cons_self)
      · exact { clear with }

theorem setsockopt {option : XpubOption} (done : s.xsetsockopt option = .ok (b, s')) :
    s'.Clear gone := by
  cases option with
  | subscribe topic | unsubscribe topic =>
    simp only [xsetsockopt] at done
    split at done
    · split at done
      · cases done
        exact clear
      · rename_i last
        have alive (member : _ ∈ gone) := clear.last _ member last
        obtain ⟨⟨_, trie⟩, changed, ⟨⟩⟩ := bind_ok.mp done
        first
        | exact { clear with subscriptions := clear.subscriptions.add alive changed }
        | exact { clear with subscriptions := clear.subscriptions.rm changed }
    · cases done
      exact clear
  | _ =>
    cases done
    exact { clear with }

theorem terminated (last : s.lastPipe = some pipe → s.options.manual = true ∧
      s.options.pub = false ∧ ∃ topic, pipe ∈ s.manualSubscriptions.subscribers topic)
    (pending : some pipe ∉ s.pendingPipes)
    (manual : s.options.manual = false → ∀ topic, pipe ∉ s.manualSubscriptions.subscribers topic)
    (done : s.xpipeTerminated pipe = .ok s') : s'.Clear (pipe :: gone) := by
  have left {r : Xpub ι} (cleared : s.lastPipe = some pipe → r.lastPipe = none)
      (kept : r.lastPipe = s.lastPipe ∨ r.lastPipe = none)
      (later : ∀ p, some p ∈ r.pendingPipes → some p ∈ s.pendingPipes) :
      ∀ p ∈ pipe :: gone, r.lastPipe ≠ some p ∧ some p ∉ r.pendingPipes := by
    intro p member
    rcases List.mem_cons.mp member with rfl | member
    · refine ⟨fun still => ?_, fun inside => pending (later p inside)⟩
      rcases kept with kept | kept
      · simp [cleared (kept ▸ still)] at still
      · simp [kept] at still
    · refine ⟨fun still => ?_, fun inside => clear.pending p member (later p inside)⟩
      rcases kept with kept | kept
      · exact clear.last p member (kept ▸ still)
      · simp [kept] at still
  unfold xpipeTerminated at done
  cases mode : s.options.manual with
  | true =>
    simp only [mode] at done
    obtain ⟨⟨topics, second⟩, swept, done⟩ := bind_ok.mp done
    obtain ⟨⟨_, trie⟩, swept', done⟩ := bind_ok.mp done
    obtain ⟨d, -, rfl⟩ := bind_return.mp done
    obtain ⟨same, same', kept, cleared, pending'⟩ :=
      foldl_sendUnsubscription topics { s with manualSubscriptions := second }
    have rest := left (fun here => by
      obtain ⟨manual, xpub, topic, held⟩ := last here
      obtain ⟨_, _, swept'', -, -, -, calls⟩ :=
        Mtrie.rmValue_spec clear.manualSubscriptions.ok pipe false
      obtain ⟨rfl, rfl⟩ := ok_pair.mp (swept''.symm.trans swept)
      exact cleared manual xpub (List.ne_nil_of_mem ((calls topic).mpr ⟨held, nofun⟩)))
      kept pending'
    rw [same] at swept'
    refine ⟨clear.subscriptions.rmValue swept', ?_, fun p member => (rest p member).1,
      fun p member => (rest p member).2⟩
    rw [same']
    exact clear.manualSubscriptions.rmValue swept
  | false =>
    simp only [mode] at done
    obtain ⟨⟨topics, trie⟩, swept, done⟩ := bind_ok.mp done
    obtain ⟨d, -, rfl⟩ := bind_return.mp done
    obtain ⟨same, same', kept, -, pending'⟩ := foldl_sendUnsubscription topics
      { s with subscriptions := trie, held := s.held.filter (·.1 ≠ pipe) }
    have rest := left (fun here => by simp [mode] at last; exact absurd here last) kept pending'
    refine ⟨?_, ?_, fun p member => (rest p member).1, fun p member => (rest p member).2⟩
    · rw [same]
      exact clear.subscriptions.rmValue swept
    · rw [same']
      refine ⟨clear.manualSubscriptions.ok, fun p member topic => ?_⟩
      rcases List.mem_cons.mp member with rfl | member
      · exact manual mode topic
      · exact clear.manualSubscriptions.absent p member topic

end Clear

/-- An `xpub_t` with the pipes that `xpipe_terminated` was called for. -/
structure Traced (ι : Type) where
  xpub : Xpub ι
  gone : List ι

theorem heeds_all (pipe : ι) (n : Nat) (s : Xpub ι) :
    heeds (fun _ _ _ => true) pipe n s = true := by
  induction n generalizing s with
  | zero => rfl
  | succ n ih =>
    simp only [heeds]
    split
    · split
      · exact ih _
      · rfl
    · rfl

theorem heedsIn_all (s : Xpub ι) (a : Action ι) : s.heedsIn (fun _ _ _ => true) a = true := by
  cases a with
  | attach | deliver =>
    simp only [heedsIn]
    split
    · exact heeds_all _ _ _
    · rfl
  | _ => rfl

namespace Traced

def step (s : Traced ι) (a : Action ι) : Except Fault (Traced ι) := do
  let t ← s.xpub.step a
  .ok ⟨t, (s.xpub.ended a).toList ++ s.gone⟩

/-- A pipe is gone for good after `xpipe_terminated`. -/
def Possible (s : Traced ι) (a : Action ι) : Prop := ∀ p ∈ a.served, p ∉ s.gone

/-- The socket remembers nothing of a pipe that is terminated but what is in the tries of the
    present mode. It may be the last pipe if an unsubscription is sent for it. -/
def Forgetful (s : Traced ι) (a : Action ι) : Prop :=
  s.Possible a ∧ ∀ p ∈ s.xpub.ended a, (s.xpub.lastPipe = some p → s.xpub.options.manual = true ∧
      s.xpub.options.pub = false ∧ ∃ topic, p ∈ s.xpub.manualSubscriptions.subscribers topic) ∧
    some p ∉ s.xpub.pendingPipes ∧
    (s.xpub.options.manual = false → ∀ topic, p ∉ s.xpub.manualSubscriptions.subscribers topic)

instance (s : Traced ι) (a : Action ι) : Decidable (s.Possible a) :=
  inferInstanceAs (Decidable (∀ p ∈ a.served, _))

theorem Forgetful.clear {s t : Traced ι} (fair : s.Forgetful a) (clear : s.xpub.Clear s.gone)
    (taken : s.step a = .ok t) : t.xpub.Clear t.gone := by
  obtain ⟨x, stepped, rfl⟩ := bind_return.mp taken
  have terminated (pipe : ι) (pair : ι → Pair) (x : Xpub ι) (ended : s.xpub.ended a = some pipe)
      (clear : Clear s.gone { s.xpub with pair := pair })
      (done : xpipeTerminated { s.xpub with pair := pair } pipe = .ok x) :
      x.Clear (pipe :: s.gone) := by
    obtain ⟨last, pending, manual⟩ := fair.2 pipe ended
    exact clear.terminated last pending manual done
  cases ended : s.xpub.ended a with
  | some pipe =>
    obtain ⟨pair, done⟩ := ended_step ended stepped
    exact terminated pipe pair x ended
      (clear.same ⟨rfl, rfl, rfl, rfl, rfl, rfl, rfl, rfl⟩ (.inl rfl)) done
  | none =>
    have fair' : s.xpub.heedsIn (fun _ _ _ => true) a = true := heedsIn_all s.xpub a
    refine step_invariant (fun _ _ clear same last => clear.same same last) ?_
      (fun p _ _ _ served clear _ done => clear.receive (fair.1 p served) done)
      (by simp [ended]) (fun _ => clear.recv) (fun _ _ _ _ done => clear.setsockopt done) clear
      fair' stepped
    rintro pipe toAll lock x' rfl entered
    exact clear.enter (fair.1 pipe rfl) entered

/-- In every run in which the socket remembers nothing else of a pipe when it terminates, it
    remembers nothing of the pipe after that. -/
theorem forgetful_publisher_keeps_nothing (options : XpubOptions) (hwms : ι → End → Int)
    {s : Traced ι} (reached : Reaches step Forgetful ⟨.start options hwms, []⟩ s) {p : ι}
    (gone : p ∈ s.gone) : s.xpub.Forgotten p := by
  have clear : s.xpub.Clear s.gone := by
    refine reached.invariant (P := fun s => s.xpub.Clear s.gone)
      ⟨⟨.empty, nofun⟩, ⟨.empty, nofun⟩, nofun, nofun⟩ ?_
    exact fun _ _ _ clear fair taken => fair.clear clear taken
  exact ⟨clear.last p gone, clear.pending p gone, clear.subscriptions.absent p gone,
    clear.manualSubscriptions.absent p gone⟩

/-- A pipe is attached and asks for a topic, the user allows it, and the pipe goes. -/
private def visit : List (Action (Fin 2)) :=
  [.attach 0 false true, .peer 0 (.write { data := [1, 65] } true), .peer 0 .flush,
    .deliver 0 true, .recv, .setsockopt (.subscribe [65])]

private def leave : List (Action (Fin 2)) :=
  [.call 0 (.terminate false true), .peer 0 .deliver, .peer 0 .read, .deliver 0 true]

theorem forgetful_publisher_keeps_nothing_of_last :
    ∃ s : Traced (Fin 2), Reaches step Forgetful
        ⟨.start { manual := true, sendLastPipe := true } fun _ _ => 0, []⟩ s ∧
      0 ∈ s.gone ∧ s.xpub.Forgotten 0 := by
  obtain ⟨s, reached, gone⟩ := exists_reaches step
    (fun s a => s.Possible a ∧ ∀ p ∈ s.xpub.ended a, s.xpub.lastPipe = some p ∧
      p ∈ s.xpub.manualSubscriptions.subscribers [65] ∧ some p ∉ s.xpub.pendingPipes ∧
      s.xpub.options.manual = true ∧ s.xpub.options.pub = false)
    ⟨.start { manual := true, sendLastPipe := true } fun (_ : Fin 2) _ => 0, []⟩
    (visit ++ leave) (fun s => 0 ∈ s.gone) (by decide +kernel)
  suffices forgetful : Reaches step Forgetful _ s from
    ⟨s, forgetful, gone, forgetful_publisher_keeps_nothing _ _ forgetful gone⟩
  refine reached.mono fun _ _ fair => ⟨fair.1, fun p ended => ?_⟩
  obtain ⟨-, held, pending, manual, xpub⟩ := fair.2 p ended
  exact ⟨fun _ => ⟨manual, xpub, [65], held⟩, pending, fun plain => by simp [manual] at plain⟩

/-- The peer goes before its subscription is fetched, and is subscribed after that. -/
theorem publisher_subscribes_terminated_pipe :
    ∃ s : Traced (Fin 2), Reaches step Possible
        ⟨.start { manual := true } fun _ _ => 0, []⟩ s ∧
      0 ∈ s.gone ∧ s.xpub.lastPipe = some 0 ∧ 0 ∈ s.xpub.subscriptions.subscribers [65] ∧
      ¬ s.xpub.Forgotten 0 :=
  exists_run_and₃ (visit.take 4 ++ leave ++ visit.drop 4) (by decide +kernel)
    fun _ _ _ last _ forgotten => forgotten.last last

end Traced

variable (s : Xpub ι)

/-! ## A first frame that is sent again -/

def selected (msg : Msg) : List ι :=
  match s.select msg with
  | .ok t => t.dist.pipes.items.take t.dist.matching
  | .error _ => []

/-- The peers do as they like, and the socket hears what they have read. -/
def PeersRead : Action ι → Prop
  | .peer .. => True
  | .deliver pipe _ => pipe ∈ s.dist.pipes.items ∧
      (((s.pair pipe).mailbox .first).head?.any (· matches .activateWrite _)) = true
  | _ => False

instance (a : Action ι) : Decidable (s.PeersRead a) := by
  induction a using Action.casesOn <;> dsimp only [PeersRead] <;> infer_instance

def Awake : Prop :=
  ∀ p ∈ s.dist.pipes.items, s.dist.isEligible p → ((s.pair p).pipe .first).state = .active →
    ((s.pair p).pipe .first).outActive = true

instance : Decidable s.Awake := inferInstanceAs (Decidable (∀ p ∈ _, _))

/-- A first frame is due. The pipes that subscribed to it are attached, and no eligible one
    waits for its peer. -/
def Due (msg : Msg) : Prop :=
  s.dist.Ok ∧ s.moreSend = false ∧ s.dist.more = false ∧
    (∀ p ∈ s.subscriptions.matchAll msg.data, p ∈ s.dist.pipes.items) ∧ s.Awake

instance (msg : Msg) : Decidable (s.Due msg) :=
  inferInstanceAs (Decidable (_ ∧ _))

/-- The pipe waited for its peer in the first state, and no longer does in the second. -/
def Wakes (t : Xpub ι) (p : ι) : Prop :=
  p ∈ s.dist.pipes.items ∧ ((s.pair p).pipe .first).outActive = false ∧
    ((t.pair p).pipe .first).outActive = true

instance (t : Xpub ι) (p : ι) : Decidable (s.Wakes t p) := inferInstanceAs (Decidable (_ ∧ _))

/-- Nobody else subscribed to a frame that is for the last pipe only, and a frame that is sent
    again does not fit the pipes that woke up meanwhile. -/
def Unhurried (msg : Msg) (t : Xpub ι) : Prop :=
  (s.forLast = true →
    ∀ p ∈ s.subscriptions.matchAll msg.data, s.dist.isEligible p → some p = s.lastPipe) ∧
  ∀ p ∈ s.dist.pipes.items, (p ∈ s.subscriptions.matchAll msg.data ↔
    s.options.invertMatching = false) → ¬ s.Wakes t p

instance (msg : Msg) (t : Xpub ι) : Decidable (s.Unhurried msg t) :=
  inferInstanceAs (Decidable (_ ∧ _))

/-- What the socket hears of the peers makes more pipes eligible: those that woke up. -/
structure Hears (s t : Xpub ι) : Prop where
  same : t = { s with dist := t.dist, pair := t.pair }
  ok : t.dist.Ok
  more : t.dist.more = s.dist.more
  mem : ∀ p, p ∈ t.dist.pipes.items ↔ p ∈ s.dist.pipes.items
  isEligible : ∀ p, t.dist.isEligible p ↔ s.dist.isEligible p ∨ s.Wakes t p
  active : ∀ p, ((t.pair p).pipe .first).state = .active → ((s.pair p).pipe .first).state = .active
  started : ∀ p, ((s.pair p).pipe .first).outActive = true →
    ((t.pair p).pipe .first).outActive = true
  woken : ∀ p, s.Wakes t p → ((s.pair p).pipe .first).state = .active
  awake : t.Awake

variable {s}

theorem deliver_activateWrite {p : Pair} {t : Pair} {event : Option Event}
    (head : ((p.mailbox .first).head?.any (· matches .activateWrite _)) = true)
    (delivered : p.deliver .first = .ok (t, event)) :
    event = none ∧ (t.pipe .first).outActive = (p.pipe .first).outActive ∨
      event = some .writeActivated := by
  unfold Pair.deliver at delivered
  split at delivered
  · simp_all
  · rename_i command rest box
    cases command with
    | activateWrite n =>
      split at delivered
      · cases delivered
      · simp only [Pair.processCommand, Pair.processActivateWrite] at delivered
        split at delivered
        · unfold Pair.notify at delivered
          split at delivered
          · exact .inr (ok_pair.mp delivered).2.symm
          · cases delivered
        · obtain ⟨rfl, rfl⟩ := ok_pair.mp delivered
          exact .inl ⟨rfl, by simp⟩
    | _ => simp [box] at head

namespace Hears

variable {t u : Xpub ι}

omit [LinearOrder ι] in
theorem refl (ok : s.dist.Ok) (awake : s.Awake) : s.Hears s where
  same := rfl
  ok := ok
  more := rfl
  mem _ := Iff.rfl
  isEligible p := by simp +contextual [Wakes]
  active _ := id
  started _ := id
  woken p wakes := by simp [Wakes] at wakes
  awake := awake

variable (hears : s.Hears t)
include hears

theorem pair {p : ι} {pair : Pair} (same : (pair.pipe .first).outActive =
    ((t.pair p).pipe .first).outActive) (active : (pair.pipe .first).state = .active →
      ((t.pair p).pipe .first).state = .active) :
    s.Hears { t with pair := Function.update t.pair p pair } := by
  have outActive (q : ι) : ((Function.update t.pair p pair q).pipe .first).outActive =
      ((t.pair q).pipe .first).outActive := by
    by_cases here : q = p <;> simp [here, same]
  have still (q : ι) (open_ : ((Function.update t.pair p pair q).pipe .first).state = .active) :
      ((t.pair q).pipe .first).state = .active := by
    by_cases here : q = p
    · subst here
      exact active (by simpa using open_)
    · simpa [here] using open_
  refine ⟨?_, hears.ok, hears.more, hears.mem, fun q => ?_, fun q open_ => ?_, fun q on => ?_,
    fun q wakes => ?_, fun q member eligible open_ => ?_⟩
  · rw [hears.same]
  · simp only [hears.isEligible, Wakes, outActive]
  · exact hears.active q (still q open_)
  · rw [outActive, hears.started q on]
  · exact hears.woken q (by simpa only [Wakes, outActive] using wakes)
  · rw [outActive, hears.awake q member eligible (still q open_)]

theorem activated {p : ι} {pair : Pair} {d : Dist ι} (member : p ∈ t.dist.pipes.items)
    (asleep : ((t.pair p).pipe .first).outActive = false)
    (open_ : ((t.pair p).pipe .first).state = .active)
    (woken : (pair.pipe .first).outActive = true) (done : t.dist.activated p = .ok d) :
    s.Hears { t with pair := Function.update t.pair p pair, dist := d } := by
  have outside : ¬ t.dist.isEligible p := fun eligible => by
    simp [hears.awake p member eligible open_] at asleep
  have becomes := Dist.activated_becomes hears.ok member outside done
  have member' := (hears.mem p).mp member
  have off : ((s.pair p).pipe .first).outActive = false := by
    by_contra on
    simp [hears.started p (by simpa using on)] at asleep
  have wakes (q : ι) :
      s.Wakes { t with pair := Function.update t.pair p pair, dist := d } q ↔
        s.Wakes t q ∨ q = p := by
    by_cases here : q = p
    · subst here
      simp [Wakes, member', off, woken]
    · simp [Wakes, here]
  refine ⟨?_, becomes.ok, becomes.more.trans hears.more,
    fun q => (becomes.mem q).trans (hears.mem q), fun q => ?_, fun q => ?_, fun q on => ?_,
    fun q woke => ?_, fun q there eligible => ?_⟩
  · rw [hears.same]
  · rw [wakes, becomes.isEligible, hears.isEligible, or_assoc]
  · by_cases here : q = p
    · subst here
      exact fun _ => hears.active q open_
    · simpa [here] using hears.active q
  · by_cases here : q = p
    · subst here
      simpa using woken
    · simpa [here] using hears.started q on
  · rcases (wakes q).mp woke with before | rfl
    · exact hears.woken q before
    · exact hears.active q open_
  · by_cases here : q = p
    · subst here
      simpa using fun _ => woken
    · simpa [here] using
        hears.awake q ((becomes.mem q).mp there)
          (((becomes.isEligible q).mp eligible).resolve_right here)

theorem step (reads : t.PeersRead a) (taken : t.step a = .ok u) : s.Hears u := by
  cases a with
  | peer pipe a =>
    obtain ⟨v, called, rfl⟩ := bind_return.mp taken
    have same : v.pipe .first = (t.pair pipe).pipe .first :=
      ((t.pair pipe).step_meets .second a).ok called
    exact hears.pair (by rw [same]) (same ▸ id)
  | deliver pipe lock =>
    obtain ⟨member, head⟩ := reads
    obtain ⟨⟨v, event⟩, delivered, reacts⟩ := bind_ok.mp taken
    have heard := ((t.pair pipe).deliver_meets .first).ok delivered
    rcases deliver_activateWrite head delivered with ⟨rfl, same⟩ | rfl
    · cases reacts
      exact hears.pair same heard.active
    · obtain ⟨asleep, open_, woken⟩ := heard.woken rfl
      obtain ⟨d, done, rfl⟩ := bind_return.mp reacts
      exact hears.activated member asleep open_ woken done
  | _ => cases reads

end Hears

theorem xsend_select (first : s.moreSend = false) (done : s.xsend msg lock = .ok (b, s')) :
    ∃ t, s.select msg = .ok t ∧ (∀ i, i ∈ s.selected msg ↔ t.dist.isMatching i) ∧
      (b = false → s' = t) := by
  rw [xsend, first, if_neg nofun] at done
  obtain ⟨t, chosen, sent⟩ := bind_ok.mp done
  refine ⟨t, chosen, fun i => by simp [selected, chosen, Dist.isMatching, ArrayT.before], ?_⟩
  rintro rfl
  unfold transmit at sent
  split at sent
  · obtain ⟨r, -, ⟨⟩⟩ := bind_ok.mp sent
  · exact (ok_pair.mp sent).2.symm

/-- A first frame that was refused goes to the pipes that it was for at first, unless these were
    only the last one of several, or others that it fits woke up meanwhile. -/
theorem resent_frame_keeps_its_pipes {s₁ s₂ s₃ : Xpub ι} {msg : Msg} {lock lock' : Bool}
    (due : s.Due msg) (refused : s.xsend msg lock = .ok (false, s₁))
    (reads : Reaches step PeersRead s₁ s₂) (sent : s₂.xsend msg lock' = .ok (true, s₃)) :
    (∀ i, i ∈ s.selected msg ↔ i ∈ s₂.selected msg) ↔ s.Unhurried msg s₂ := by
  obtain ⟨ok, first, idle, members, awake⟩ := due
  obtain ⟨t, chosen, selects, same⟩ := xsend_select first refused
  obtain ⟨d, rfl, becomes⟩ := select_becomes ok idle members chosen
  obtain rfl := same rfl
  have hears : Hears { s with dist := d, lastPipe := if s.forLast then none else s.lastPipe } s₂ :=
    reads.invariant (.refl becomes.ok fun p member eligible =>
      awake p ((becomes.mem p).mp member) ((becomes.isEligible p).mp eligible))
      fun _ _ _ hears reads taken => hears.step reads taken
  have subscribed : s₂.subscriptions = s.subscriptions := by rw [hears.same]
  have options : s₂.options = s.options := by rw [hears.same]
  have plain : s₂.forLast = false := by
    rw [hears.same]
    cases last : s.forLast with
    | true => simp [forLast]
    | false => exact last
  obtain ⟨t₂, chosen₂, selects₂, -⟩ := xsend_select (by rw [hears.same]; exact first) sent
  obtain ⟨d₂, rfl, becomes₂⟩ := select_becomes hears.ok (hears.more.trans (becomes.more.trans idle))
    (fun p there => (hears.mem p).mpr ((becomes.mem p).mpr (members p (subscribed ▸ there)))) chosen₂
  have wakes (p : ι) : Wakes { s with
      dist := d, lastPipe := if s.forLast then none else s.lastPipe } s₂ p ↔ s.Wakes s₂ p := by
    simp [Wakes, becomes.mem]
  have late (p : ι) (woke : s.Wakes s₂ p) : ¬ s.dist.isEligible p := fun eligible => by
    have := awake p woke.1 eligible (hears.woken p ((wakes p).mpr woke))
    simp [woke.2.1] at this
  have before (i : ι) : i ∈ s.selected msg ↔ s.dist.isEligible i ∧
      ((i ∈ s.subscriptions.matchAll msg.data ∧ (s.forLast = true → some i = s.lastPipe)) ↔
        s.options.invertMatching = false) := by
    rw [selects, becomes.isMatching]
  have after (i : ι) : i ∈ s₂.selected msg ↔ (s.dist.isEligible i ∨ s.Wakes s₂ i) ∧
      (i ∈ s.subscriptions.matchAll msg.data ↔ s.options.invertMatching = false) := by
    rw [selects₂, becomes₂.isMatching, hears.isEligible, wakes, becomes.isEligible, subscribed,
      options, plain]
    simp
  simp only [before, after]
  refine ⟨fun same => ⟨fun last p there eligible => ?_, fun p _ fits woke => ?_⟩, fun calm i => ?_⟩
  · have := same p
    tauto
  · exact late p woke ((same p).mpr ⟨.inr woke, fits⟩).1
  · have := late i
    have := calm.1
    have := calm.2 i
    have : s.Wakes s₂ i → i ∈ s.dist.pipes.items := And.left
    tauto

theorem exists_retry (options : XpubOptions) (hwms : ι → End → Int) (msg : Msg)
    (Q : Xpub ι → Xpub ι → Prop) [∀ s t, Decidable (Q s t)] (actions reads : List (Action ι))
    (found : (follow step (fun _ _ => True) (start options hwms) actions).any (fun s =>
      decide (((s.xsend msg true).toOption.bind fun r => follow step PeersRead r.2 reads).any
        (fun t => decide ((s.xsend msg true).toOption.any (!·.1) = true ∧
          (t.xsend msg true).toOption.any (·.1) = true ∧ Q s t)) = true)) = true) :
    ∃ s s₁ t t₁, Reaches step (fun _ _ => True) (start options hwms) s ∧
      s.xsend msg true = .ok (false, s₁) ∧ Reaches step PeersRead s₁ t ∧
      t.xsend msg true = .ok (true, t₁) ∧ Q s t := by
  obtain ⟨s, reached, found⟩ := exists_reaches _ _ _ actions _ found
  obtain ⟨⟨b, s₁⟩, t, refused, reads, first, second, holds⟩ :=
    exists_reaches_ok (s.xsend msg true) (·.2) step PeersRead reads _ found
  obtain rfl : b = false := by simpa [refused, Except.toOption] using first
  obtain ⟨⟨b, t₁⟩, sent, test⟩ := exists_ok_of_any _ _ second
  obtain rfl : b = true := test
  exact ⟨s, s₁, t, t₁, reached, refused, reads, sent, holds⟩

private def subscribes (pipe : Fin 2) (topic : List UInt8) : List (Action (Fin 2)) :=
  [.peer pipe .deliver, .peer pipe (.write { data := 1 :: topic } true), .peer pipe .flush,
    .deliver pipe true, .recv, .setsockopt (.subscribe topic)]

/-- The second pipe was full before messages had to wait for it. It wakes up, but the frame does
    not fit it. -/
theorem resent_frame_keeps_its_pipes_after_read :
    ∃ s s₁ t t₁ : Xpub (Fin 2), s.xsend { data := [65] } true = .ok (false, s₁) ∧
      Reaches step PeersRead s₁ t ∧ t.xsend { data := [65] } true = .ok (true, t₁) ∧
      s.Wakes t 1 ∧ s.selected { data := [65] } = [0] ∧
      ∀ i, i ∈ s.selected { data := [65] } ↔ i ∈ t.selected { data := [65] } := by
  obtain ⟨s, s₁, t, t₁, -, refused, reads, sent, due, calm, wakes, selects⟩ := exists_retry
    {} (fun _ _ => 1) { data := [65] }
    (fun s t => s.Due { data := [65] } ∧ s.Unhurried { data := [65] } t ∧ s.Wakes t 1 ∧
      s.selected { data := [65] } = [0])
    (.attach 0 false true :: .attach 1 false true :: subscribes 0 [65] ++ subscribes 1 [66] ++
      [.send { data := [66] } true, .send { data := [66] } true, .setsockopt (.nodrop true),
        .send { data := [65] } true])
    [.peer 1 .read, .deliver 1 true, .peer 0 .read, .deliver 0 true] (by decide +kernel)
  exact ⟨s, s₁, t, t₁, refused, reads, sent, wakes, selects,
    (resent_frame_keeps_its_pipes due refused reads sent).mpr calm⟩

/-- A value that is for the last pipe only is refused because that pipe is full. When there is
    room, it goes to all the pipes that subscribed. -/
theorem resent_value_goes_to_others :
    ∃ s s₁ t t₁ : Xpub (Fin 2), Reaches step (fun _ _ => True)
        (start { lossy := false, manual := true, sendLastPipe := true } fun _ _ => 1) s ∧
      s.xsend { data := [65] } true = .ok (false, s₁) ∧ Reaches step PeersRead s₁ t ∧
      t.xsend { data := [65] } true = .ok (true, t₁) ∧
      s.selected { data := [65] } = [0] ∧ 1 ∈ t.selected { data := [65] } :=
  exists_retry _ _ _ _ (.attach 0 false true :: .attach 1 false true :: subscribes 1 [65] ++
      subscribes 0 [65] ++ .send { data := [65] } true :: subscribes 0 [65])
    [.peer 0 .read, .deliver 0 true] (by decide +kernel)

end Xpub

end Zmq
