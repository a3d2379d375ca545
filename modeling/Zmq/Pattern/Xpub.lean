import Zmq.Pattern.Dist
import Zmq.Pattern.Mtrie

/-! # Publishers

`xpub_t` reads subscriptions and cancellations from its pipes and keeps them in a trie. A
message goes to the pipes with a subscription that is a prefix of its first frame. Changes of
the subscriptions are queued as notifications for the user of the socket, among the messages
that the other sides sent upstream. In manual mode the user decides what a peer is subscribed
to, and `_pending_pipes` says which peer a notification came from.

The metadata of the queued messages is not modelled.
-/

namespace Zmq

open Lib

inductive Origin (ι : Type) where
  | request (pipe : ι)
  | user (pipe : ι)
  | gone
  deriving Repr, DecidableEq

/-- The switches of an `xpub_t`. -/
structure XpubOptions where
  pub : Bool := false
  immediate : Bool := false
  invertMatching : Bool := false
  verboseSubs : Bool := false
  verboseUnsubs : Bool := false
  onlyFirstSubscribe : Bool := false
  lossy : Bool := true
  manual : Bool := false
  sendLastPipe : Bool := false
  welcomeMsg : List UInt8 := []

/-- `xpub_t` and the pipes, whose first ends it has. -/
structure Xpub (ι : Type) where
  options : XpubOptions
  dist : Dist ι
  pair : ι → Pair
  subscriptions : Mtrie ι
  manualSubscriptions : Mtrie ι
  moreSend : Bool := false
  moreRecv : Bool := false
  processSubscribe : Bool := false
  lastPipe : Option ι := none
  pendingPipes : List (Option ι) := []
  pendingData : List (List UInt8) := []
  pendingFlags : List UInt8 := []
  origins : List (Origin ι) := []
  returned : List Msg := []
  /-- The subscriptions that the pipes hold by what was read from them. -/
  held : List (ι × List UInt8) := []

inductive XpubOption where
  | verbose (on : Bool)
  | verboser (on : Bool)
  | manualLastValue (on : Bool)
  | nodrop (on : Bool)
  | manual (on : Bool)
  | onlyFirstSubscribe (on : Bool)
  | subscribe (topic : List UInt8)
  | unsubscribe (topic : List UInt8)
  | welcomeMsg (data : List UInt8)
  deriving Repr, DecidableEq

namespace Xpub

variable {ι : Type} [LinearOrder ι]

def start (options : XpubOptions) (hwms : ι → End → Int) : Xpub ι where
  options := options
  dist := .empty
  pair i := .attached (hwms i) fun _ => false
  subscriptions := .empty
  manualSubscriptions := .empty

def request (msg : Msg) : Request :=
  if msg.isSubscribe || msg.isCancel then
    if msg.isSubscribe then .subscribe msg.commandBody else .cancel msg.commandBody
  else
    match msg.data with
    | 0 :: topic => .cancel topic
    | 1 :: topic => .subscribe topic
    | _ => .user

variable (s : Xpub ι)

def push (data : List UInt8) (flags : UInt8) (origin : Origin ι) : Xpub ι :=
  { s with
    pendingData := s.pendingData ++ [data]
    pendingFlags := s.pendingFlags ++ [flags]
    origins := s.origins ++ [origin] }

/-- What a subscription or cancellation does to the trie, and whether the user is to be told. -/
def update (pipe : ι) (topic : List UInt8) (subscribe : Bool) : Except Fault (Bool × Xpub ι) :=
  if s.options.manual then
    if subscribe then do
      let (_, trie) ← s.manualSubscriptions.add pipe topic
      .ok (false, { s with
        manualSubscriptions := trie, pendingPipes := s.pendingPipes ++ [some pipe] })
    else do
      let (_, trie) ← s.manualSubscriptions.rm pipe topic
      .ok (false, { s with
        manualSubscriptions := trie, pendingPipes := s.pendingPipes ++ [some pipe] })
  else if subscribe then do
    let (firstAdded, trie) ← s.subscriptions.add pipe topic
    .ok (firstAdded || s.options.verboseSubs,
      { s with subscriptions := trie, held := (pipe, topic) :: s.held })
  else do
    let (result, trie) ← s.subscriptions.rm pipe topic
    .ok (result != .valuesRemain || s.options.verboseUnsubs,
      { s with subscriptions := trie, held := s.held.filter (· ≠ (pipe, topic)) })

def handle (pipe : ι) (topic : List UInt8) (subscribe : Bool) :
    Except Fault (Xpub ι) := do
  let (notify, s) ← s.update pipe topic subscribe
  if s.options.manual || (!s.options.pub && notify) then
    .ok (s.push ((if subscribe then 1 else 0) :: topic) 0 (.request pipe))
  else .ok s

def reading (msg : Msg) : Request :=
  if !s.moreRecv || s.processSubscribe then request msg else .user

def receive (pipe : ι) (msg : Msg) : Except Fault (Xpub ι) :=
  let asked := s.reading msg
  let s :=
    { s with
      moreRecv := msg.more
      processSubscribe :=
        if !s.moreRecv then !s.options.onlyFirstSubscribe || decide (asked ≠ .user)
        else s.processSubscribe }
  match asked with
  | .subscribe topic => s.handle pipe topic true
  | .cancel topic => s.handle pipe topic false
  | .user => .ok (if s.options.pub then s else s.push msg.data msg.flags (.user pipe))

/-- The loop of `xread_activated`; the number bounds what can be read. -/
def readFrom (pipe : ι) : Nat → Xpub ι → Except Fault (Xpub ι)
  | 0, s => .ok s
  | n + 1, s => do
      let (msg, t) ← (s.pair pipe).read .first
      let s := { s with pair := Function.update s.pair pipe t }
      match msg with
      | none => .ok s
      | some msg => do
          let s ← s.receive pipe msg
          readFrom pipe n s

variable (s : Xpub ι)

def waiting (pipe : ι) : Nat :=
  match (s.pair pipe).queue .first ((s.pair pipe).pipe .first).inPipe with
  | some q => q.pending
  | none => 0

def xreadActivated (pipe : ι) : Except Fault (Xpub ι) :=
  readFrom pipe (s.waiting pipe + 1) s

/-- The first lines of `pub_t::xattach_pipe`. -/
def setNodelay (pipe : ι) : Xpub ι :=
  if s.options.pub then
    { s with pair := Function.update s.pair pipe ((s.pair pipe).setPipe .first
      { (s.pair pipe).pipe .first with delay := false }) }
  else s

/-- The caller may want all data on the pipe. -/
def subscribeToAll (pipe : ι) (toAll : Bool) : Except Fault (Xpub ι) :=
  if toAll then do
    let (_, trie) ← s.subscriptions.add pipe []
    .ok { s with subscriptions := trie, held := (pipe, []) :: s.held }
  else .ok s

def welcome (pipe : ι) (tryLock : Bool) : Except Fault (Xpub ι) :=
  if s.options.welcomeMsg = [] then .ok s
  else do
    let (ok, t) ← (s.pair pipe).write .first (.initSize s.options.welcomeMsg) tryLock
    if ok then do
      let t ← t.flush .first
      .ok { s with pair := Function.update s.pair pipe t }
    else .error (.assertion .xattachPipe)

/-- `xattach_pipe` up to the call of `xread_activated`. -/
def enter (pipe : ι) (toAll tryLock : Bool) : Except Fault (Xpub ι) := do
  let s := s.setNodelay pipe
  let d ← s.dist.attach pipe
  let s := { s with dist := d }
  let s ← s.subscribeToAll pipe toAll
  s.welcome pipe tryLock

def xattachPipe (pipe : ι) (toAll tryLock : Bool) : Except Fault (Xpub ι) := do
  let s ← s.enter pipe toAll tryLock
  s.xreadActivated pipe

def sendUnsubscription (topic : List UInt8) : Xpub ι :=
  if s.options.pub then s
  else
    let s := s.push (0 :: topic) 0 .gone
    if s.options.manual then
      { s with lastPipe := none, pendingPipes := s.pendingPipes ++ [none] }
    else s

def xpipeTerminated (pipe : ι) : Except Fault (Xpub ι) := do
  let held := s.held.filter (·.1 ≠ pipe)
  if s.options.manual then do
    let (topics, manual) ← s.manualSubscriptions.rmValue pipe false []
    let s := topics.foldl sendUnsubscription { s with manualSubscriptions := manual }
    let (_, trie) ← s.subscriptions.rmValue pipe false []
    let d ← s.dist.pipeTerminated pipe
    .ok { s with subscriptions := trie, held := held, dist := d }
  else do
    let (topics, trie) ← s.subscriptions.rmValue pipe (!s.options.verboseUnsubs) []
    let s := topics.foldl sendUnsubscription { s with subscriptions := trie, held := held }
    let d ← s.dist.pipeTerminated pipe
    .ok { s with dist := d }

/-- `mark_as_matching` for each of some pipes. -/
def markAll : List ι → Dist ι → Except Fault (Dist ι)
  | [], d => .ok d
  | pipe :: rest, d => do
      let d ← d.matchPipe pipe
      markAll rest d

def invert (d : Dist ι) : Except Fault (Dist ι) :=
  if s.options.invertMatching then d.reverseMatch else .ok d

/-- The next message is for the last pipe only. -/
def forLast : Bool := s.options.manual && s.lastPipe.isSome && s.options.sendLastPipe

def candidates (msg : Msg) : List ι :=
  let matching := s.subscriptions.matchAll msg.data
  if s.forLast then matching.filter (some · = s.lastPipe) else matching

/-- The pipes of a message are chosen by its first frame. -/
def select (msg : Msg) : Except Fault (Xpub ι) := do
  let d ← markAll (s.candidates msg) s.dist.unmatch
  let d ← s.invert d
  .ok { s with dist := d, lastPipe := if s.forLast then none else s.lastPipe }

/-- The second half of `xsend`, with what it returns. -/
def transmit (msg : Msg) (tryLock : Bool) : Except Fault (Bool × Xpub ι) :=
  if s.options.lossy || s.dist.checkHwm s.pair then do
    let (d, pair) ← s.dist.sendToMatching s.pair msg tryLock
    .ok (true, { s with
      dist := if msg.more then d else d.unmatch, pair := pair, moreSend := msg.more })
  else .ok (false, s)

def xsend (msg : Msg) (tryLock : Bool) : Except Fault (Bool × Xpub ι) :=
  if s.moreSend then s.transmit msg tryLock
  else do
    let s ← s.select msg
    s.transmit msg tryLock

/-- `xrecv`. A `pub_t` has none. -/
def xrecv : Option Msg × Xpub ι :=
  if s.options.pub then (none, s)
  else
    match s.pendingData with
    | [] => (none, s)
    | data :: rest =>
      let s :=
        if s.options.manual then
          match s.pendingPipes with
          | [] => s
          | pipe :: pipes => { s with lastPipe := pipe, pendingPipes := pipes }
        else s
      let msg := { Msg.initSize data with flags := s.pendingFlags.headD 0 }
      (some msg, { s with
        pendingData := rest
        pendingFlags := s.pendingFlags.tail
        origins := s.origins.tail
        returned := s.returned ++ [msg] })

/-- `xsetsockopt`, with what it returns. -/
def xsetsockopt : XpubOption → Except Fault (Bool × Xpub ι)
  | .verbose on =>
    .ok (true, { s with options := { s.options with verboseSubs := on, verboseUnsubs := false } })
  | .verboser on =>
    .ok (true, { s with options := { s.options with verboseSubs := on, verboseUnsubs := on } })
  | .manualLastValue on =>
    .ok (true, { s with options := { s.options with manual := on, sendLastPipe := on } })
  | .nodrop on => .ok (true, { s with options := { s.options with lossy := !on } })
  | .manual on => .ok (true, { s with options := { s.options with manual := on } })
  | .onlyFirstSubscribe on =>
    .ok (true, { s with options := { s.options with onlyFirstSubscribe := on } })
  | .subscribe topic =>
    if s.options.manual then
      match s.lastPipe with
      | none => .ok (true, s)
      | some pipe => do
          let (_, trie) ← s.subscriptions.add pipe topic
          .ok (true, { s with subscriptions := trie })
    else .ok (false, s)
  | .unsubscribe topic =>
    if s.options.manual then
      match s.lastPipe with
      | none => .ok (true, s)
      | some pipe => do
          let (_, trie) ← s.subscriptions.rm pipe topic
          .ok (true, { s with subscriptions := trie })
    else .ok (false, s)
  | .welcomeMsg data => .ok (true, { s with options := { s.options with welcomeMsg := data } })

inductive Action (ι : Type) where
  | attach (pipe : ι) (toAll tryLock : Bool)
  | send (msg : Msg) (tryLock : Bool)
  | recv
  | setsockopt (option : XpubOption)
  | call (pipe : ι) (a : Zmq.Action)
  | deliver (pipe : ι) (tryLock : Bool)
  | peer (pipe : ι) (a : Zmq.Action)
  deriving DecidableEq

def react (pipe : ι) (tryLock : Bool) : Option Event → Except Fault (Xpub ι)
  | some .readActivated => s.xreadActivated pipe
  | some .writeActivated => do
      let d ← s.dist.activated pipe
      .ok { s with dist := d }
  | some .pipeTerminated => s.xpipeTerminated pipe
  | some .hiccuped =>
    if s.options.immediate then do
      let t ← (s.pair pipe).terminate .first false tryLock
      .ok { s with pair := Function.update s.pair pipe t }
    else .error (.assertion .xhiccuped)
  | _ => .ok s

def step (s : Xpub ι) : Action ι → Except Fault (Xpub ι)
  | .attach pipe toAll tryLock => s.xattachPipe pipe toAll tryLock
  | .send msg tryLock => (s.xsend msg tryLock).map (·.2)
  | .recv => .ok s.xrecv.2
  | .setsockopt option => (s.xsetsockopt option).map (·.2)
  | .call pipe a => do
      let t ← (s.pair pipe).step (.first, a)
      .ok { s with pair := Function.update s.pair pipe t }
  | .deliver pipe tryLock => do
      let (t, event) ← (s.pair pipe).deliver .first
      react { s with pair := Function.update s.pair pipe t } pipe tryLock event
  | .peer pipe a => do
      let t ← (s.pair pipe).step (.second, a)
      .ok { s with pair := Function.update s.pair pipe t }

/-! ## A request in default mode -/

def asked (held : Prop) (topic : List UInt8) : Request → Prop
  | .subscribe t => held ∨ topic = t
  | .cancel t => held ∧ topic ≠ t
  | .user => held

/-- The pipe's subscriptions are what it asked for, those of others are as before, and nothing
    changes for the sender of messages. -/
structure Heard (s : Xpub ι) (pipe : ι) (request : Request) (s' : Xpub ι) : Prop where
  options : s'.options = s.options
  dist : s'.dist = s.dist
  pair : s'.pair = s.pair
  moreSend : s'.moreSend = s.moreSend
  ok : s'.subscriptions.Ok
  members : ∀ p t, p ∈ s'.subscriptions.subscribers t ↔
    if p = pipe then asked (p ∈ s.subscriptions.subscribers t) t request
    else p ∈ s.subscriptions.subscribers t
  held : ∀ p t, (p, t) ∈ s'.held ↔
    if p = pipe then asked ((p, t) ∈ s.held) t request else (p, t) ∈ s.held

section Requests

variable {s : Xpub ι}

section

variable (manual : s.options.manual = false) (ok : s.subscriptions.Ok) (pipe : ι)
include manual ok pipe

theorem update_heard (topic : List UInt8) (subscribe : Bool) :
    ∃ notify s', s.update pipe topic subscribe = .ok (notify, s') ∧
      s.Heard pipe (if subscribe then .subscribe topic else .cancel topic) s' ∧
      s'.processSubscribe = s.processSubscribe := by
  cases subscribe with
  | true =>
    obtain ⟨trie, added, ok', members⟩ := Mtrie.add_spec ok pipe topic
    simp only [update, manual, added]
    refine ⟨_, _, rfl, ⟨rfl, rfl, rfl, rfl, ok', fun p t => ?_, fun p t => ?_⟩, rfl⟩
    · rw [members]
      by_cases same : p = pipe <;> simp [same, asked]
    · by_cases same : p = pipe <;> simp [same, asked, or_comm]
  | false =>
    obtain ⟨result, trie, removed, ok', members, -, -⟩ := Mtrie.rm_spec ok pipe topic
    simp only [update, manual, removed]
    refine ⟨_, _, rfl, ⟨rfl, rfl, rfl, rfl, ok', fun p t => ?_, fun p t => ?_⟩, rfl⟩
    · rw [members]
      by_cases same : p = pipe <;> simp [same, asked]
    · by_cases same : p = pipe <;> simp [same, asked]

theorem handle_heard (topic : List UInt8) (subscribe : Bool) :
    ∃ s', s.handle pipe topic subscribe = .ok s' ∧
      s.Heard pipe (if subscribe then .subscribe topic else .cancel topic) s' ∧
      s'.processSubscribe = s.processSubscribe := by
  obtain ⟨notify, s₁, updated, heard, processes⟩ :=
    update_heard manual ok pipe topic subscribe
  unfold handle
  rw [updated, ok_bind]
  simp only
  split
  · exact ⟨_, rfl, { heard with }, processes⟩
  · exact ⟨s₁, rfl, heard, processes⟩

theorem receive_heard (msg : Msg) :
    ∃ s', s.receive pipe msg = .ok s' ∧ s.Heard pipe (s.reading msg) s' ∧
      s'.processSubscribe =
        if !s.moreRecv then !s.options.onlyFirstSubscribe || decide (s.reading msg ≠ .user)
        else s.processSubscribe := by
  unfold receive
  cases asked : s.reading msg with
  | subscribe topic =>
    obtain ⟨s', handled, heard, processes⟩ := handle_heard (s := { s with
      moreRecv := msg.more
      processSubscribe := if !s.moreRecv then
        !s.options.onlyFirstSubscribe || decide (Request.subscribe topic ≠ .user)
        else s.processSubscribe }) manual ok pipe topic true
    exact ⟨s', handled, { heard with }, processes⟩
  | cancel topic =>
    obtain ⟨s', handled, heard, processes⟩ := handle_heard (s := { s with
      moreRecv := msg.more
      processSubscribe := if !s.moreRecv then
        !s.options.onlyFirstSubscribe || decide (Request.cancel topic ≠ .user)
        else s.processSubscribe }) manual ok pipe topic false
    exact ⟨s', handled, { heard with }, processes⟩
  | user =>
    simp only
    split
    · exact ⟨_, rfl, ⟨rfl, rfl, rfl, rfl, ok, fun p t => by simp [Xpub.asked],
        fun p t => by simp [Xpub.asked]⟩, rfl⟩
    · exact ⟨_, rfl, ⟨rfl, rfl, rfl, rfl, ok, fun p t => by simp [Xpub.asked, push],
        fun p t => by simp [Xpub.asked, push]⟩, rfl⟩

end

end Requests

end Xpub

end Zmq
