import Zmq.Lib.Channel
import Zmq.Pipe.Basic

/-! # The termination handshake of a pipe pair

What the two endpoints have to agree on, without messages and flow control.
Each side may ask the other to terminate, answers a request once, and leaves
when its own answer has come. Between the two there is a FIFO per direction, and
hiccups replace the queue a side reads from while requests are in flight.

What a side has said so far is a phase. The invariant says that reading the
commands in flight takes what the receiver has heard to what the sender has
said. All assertions of the handshake follow from it.
-/

namespace Zmq

open Lib Function

inductive Signal where
  | talk
  | hiccup (pipe : Nat)
  | term
  | ack
  deriving DecidableEq

/-- What went over one direction: neither `term` nor `ack`, only `term`, only
    `ack`, or both in this order. -/
inductive Phase where
  | opened
  | asked
  | acked
  | closed
  deriving DecidableEq

namespace Phase

/-- Nothing follows an `ack`, and no hiccup follows a `term`. -/
@[grind =] def next : Phase → Signal → Option Phase
  | .opened, .talk | .opened, .hiccup _ => some .opened
  | .opened, .term => some .asked
  | .opened, .ack => some .acked
  | .asked, .talk => some .asked
  | .asked, .ack => some .closed
  | _, _ => none

/-- What an endpoint in this state has said to its peer. -/
def said : PipeState → Bool → Phase
  | .termReqSent2, _ | .termReqSent1, true => .closed
  | .termReqSent1, false => .asked
  | .termAckSent, _ => .acked
  | .active, _ | .delimiterReceived, _ | .waitingForDelimiter, _ => .opened

/-- What an endpoint in this state has heard from its peer. -/
def heard : PipeState → Bool → Phase
  | .waitingForDelimiter, gone | .termAckSent, gone | .termReqSent2, gone =>
    if gone then .closed else .asked
  | .active, gone | .delimiterReceived, gone | .termReqSent1, gone =>
    if gone then .acked else .opened

def acks : Phase → Bool
  | .acked | .closed => true
  | _ => false

def asks : Phase → Bool
  | .asked | .closed => true
  | _ => false

variable {p q : Phase} {x : Signal} {word : List Signal} {k : Nat}

theorem acks_next (h : p.acks = true) (moved : next p x = some q) : q.acks = true := by
  cases p <;> cases x <;> simp_all [next, acks]

theorem asks_next (h : p.asks = true) (moved : next p x = some q) : q.asks = true := by
  cases p <;> cases x <;> simp_all [next, asks]
  all_goals subst moved; rfl

theorem opened_of_next (moved : next p x = some .opened) : p = .opened := by
  cases p <;> cases x <;> simp_all [next]

theorem opened_of_hiccup (moved : next p (.hiccup k) = some q) : p = .opened := by
  cases p <;> simp_all [next]

theorem acks_of_ack (moved : next p .ack = some q) : q.acks = true := by
  cases p <;> simp [next] at moved <;> subst moved <;> rfl

theorem asks_of_term (moved : next p .term = some q) : q.asks = true := by
  cases p <;> simp [next] at moved
  subst moved
  rfl

variable {state : PipeState}

theorem heard_term {gone : Bool} (moved : next (heard state gone) .term = some q) :
    gone = false ∧ (state = .active ∨ state = .delimiterReceived ∨ state = .termReqSent1) := by
  cases state <;> cases gone <;> simp_all [heard, next]

theorem state_of_acks (h : (said state false).acks = true) :
    state = .termAckSent ∨ state = .termReqSent2 := by
  cases state <;> simp_all [said, acks]

theorem state_of_asks {gone : Bool} (h : (said state gone).asks = true) :
    state = .termReqSent1 ∨ state = .termReqSent2 := by
  cases state <;> cases gone <;> simp_all [said, asks]

theorem state_of_asked {gone : Bool} (h : said state gone = .asked) :
    state = .termReqSent1 ∧ gone = false := by
  cases state <;> cases gone <;> simp_all [said]

theorem opened_of_mem (member : .hiccup k ∈ word)
    (synced : absorb next p word = some q) : p = .opened :=
  absorb_mem (P := (· = .opened)) (fun _ _ _ moved same => opened_of_next (same ▸ moved))
    (fun _ _ moved => opened_of_hiccup moved) member synced

theorem acks_of_heard {gone : Bool} (untold : heard state gone = .opened) :
    (said state gone).acks = false := by
  cases state <;> cases gone <;> simp_all [said, heard, acks]

theorem next_talk (silent : p.acks = false) : next p .talk = some p := by
  cases p <;> simp_all [next, acks]

theorem eq_of_talk (moved : next p .talk = some q) : q = p := by
  cases p <;> simp_all [next]

theorem nil_of_acks (h : p.acks = true) (synced : absorb next p word = some q) : word = [] := by
  cases word with
  | nil => rfl
  | cons x rest => cases p <;> cases x <;> simp_all [next, acks]

end Phase

@[ext] structure Handshake where
  state : End → PipeState
  gone : End → Bool
  box : End → List Signal
  reads : End → Nat
  writes : End → Option Nat
  /-- The queues allocated for a reader. -/
  held : End → Nat → Bool

namespace Handshake

def Signal.pipes (word : List Signal) : List Nat :=
  word.filterMap fun
    | .hiccup k => some k
    | _ => none

theorem pipes_of_told {p q : Phase} {word : List Signal} (told : p ≠ .opened)
    (synced : absorb Phase.next p word = some q) : Signal.pipes word = [] := by
  apply List.filterMap_eq_nil_iff.mpr
  intro x member
  cases x with
  | hiccup k => exact absurd (Phase.opened_of_mem member synced) told
  | _ => rfl

/-- The queues of the direction read by `e`: the writer's own, then one for each
    hiccup on its way to the writer, up to the reader's own. They are all that
    is allocated. A writer that has answered keeps no pointer. -/
structure Chain (h : Handshake) (e : End) : Prop where
  dropped : h.writes e.peer = none ↔ (Phase.said (h.state e.peer) (h.gone e.peer)).acks = true
  linked : ∀ k, h.writes e.peer = some k → k ≤ h.reads e ∧
    Signal.pipes (h.box e.peer) = List.range' (k + 1) (h.reads e - k) ∧
    ∀ j, h.held e j = true ↔ k ≤ j ∧ j ≤ h.reads e
  parted : h.writes e.peer = none → Signal.pipes (h.box e.peer) = [] ∧
    ∀ j, h.held e j = true ↔ j = h.reads e ∧ h.gone e = false

structure Inv (h : Handshake) : Prop where
  synced : ∀ e, absorb Phase.next (Phase.heard (h.state e) (h.gone e)) (h.box e) =
    some (Phase.said (h.state e.peer) (h.gone e.peer))
  chain : ∀ e, h.Chain e

namespace Inv

variable {h : Handshake} {e : End} {k : Nat}

section

variable (inv : h.Inv)
include inv

theorem peer_acks (gone : h.gone e = true) :
    (Phase.said (h.state e.peer) (h.gone e.peer)).acks = true := by
  refine absorb_closed (P := fun p : Phase => p.acks = true) (fun _ _ _ => Phase.acks_next) ?_
    (inv.synced e)
  rw [gone]
  cases h.state e <;> rfl

theorem peer_asks (told : (Phase.heard (h.state e) (h.gone e)).asks = true) :
    (Phase.said (h.state e.peer) (h.gone e.peer)).asks = true :=
  absorb_closed (P := fun p : Phase => p.asks = true) (fun _ _ _ => Phase.asks_next) told
    (inv.synced e)

theorem peer_stays
    (silent : (Phase.said (h.state e) (h.gone e)).acks = false) : h.gone e.peer = false := by
  by_contra left
  have := inv.peer_acks (e := e.peer) (by simpa using left)
  simp [silent] at this

theorem box_of_gone (gone : h.gone e = true) : h.box e = [] := by
  refine Phase.nil_of_acks ?_ (inv.synced e)
  rw [gone]
  cases h.state e <;> rfl

theorem state_of_term {rest} (at_head : h.box e = .term :: rest) :
    h.gone e = false ∧ (h.state e = .active ∨ h.state e = .delimiterReceived ∨
      h.state e = .termReqSent1) := by
  have synced := inv.synced e
  rw [at_head, absorb_cons] at synced
  obtain ⟨p, moved, -⟩ := Option.bind_eq_some_iff.mp synced
  exact Phase.heard_term moved

theorem spoke (answered : (Phase.said (h.state e.peer) (h.gone e.peer)).acks = true) :
    (Phase.said (h.state e) (h.gone e)).acks = true ∨
      (Phase.said (h.state e) (h.gone e)).asks = true := by
  cases left : h.gone e.peer with
  | true =>
    have := inv.peer_acks left
    rw [End.peer_peer] at this
    exact .inl this
  | false =>
    rw [left] at answered
    have told : (Phase.heard (h.state e.peer) (h.gone e.peer)).asks = true := by
      rcases Phase.state_of_acks answered with state | state <;> rw [left, state] <;> rfl
    have := inv.peer_asks told
    rw [End.peer_peer] at this
    exact .inr this

theorem state_of_gone (gone : h.gone e = true) : h.state e = .termAckSent ∨
    h.state e = .termReqSent1 ∨ h.state e = .termReqSent2 := by
  have spoke := inv.spoke (inv.peer_acks gone)
  cases state : h.state e <;> simp_all [Phase.said, Phase.acks, Phase.asks]

theorem state_of_ack {rest} (at_head : h.box e = .ack :: rest) :
    h.gone e = false ∧ rest = [] ∧ (h.state e = .termReqSent1 ∨ h.state e = .termAckSent ∨
      h.state e = .termReqSent2) := by
  have stays : h.gone e = false := by
    by_contra left
    have := inv.box_of_gone (e := e) (by simpa using left)
    simp [at_head] at this
  have synced := inv.synced e
  rw [at_head, absorb_cons] at synced
  obtain ⟨p, moved, onward⟩ := Option.bind_eq_some_iff.mp synced
  have answered : p.acks = true := Phase.acks_of_ack moved
  have peer_answered : (Phase.said (h.state e.peer) (h.gone e.peer)).acks = true :=
    absorb_closed (P := fun p : Phase => p.acks = true) (fun _ _ _ => Phase.acks_next)
      answered onward
  refine ⟨stays, Phase.nil_of_acks answered onward, ?_⟩
  have spoke := inv.spoke peer_answered
  rw [stays] at spoke
  rcases spoke with acks | asks
  · exact .inr (Phase.state_of_acks acks)
  · rcases Phase.state_of_asks asks with state | state
    · exact .inl state
    · exact .inr (.inr state)

theorem writes_held (here : h.writes e = some k) : h.held e.peer k = true := by
  obtain ⟨le, -, alloc⟩ := (inv.chain e.peer).linked k (by simpa using here)
  exact (alloc k).mpr ⟨Nat.le_refl _, le⟩

theorem reads_held (stays : h.gone e = false) : h.held e (h.reads e) = true := by
  cases here : h.writes e.peer with
  | none => exact ((inv.chain e).parted here).2 _ |>.mpr ⟨rfl, stays⟩
  | some k =>
    obtain ⟨le, -, alloc⟩ := (inv.chain e).linked k here
    exact (alloc _).mpr ⟨le, Nat.le_refl _⟩

theorem writes_isSome (silent : (Phase.said (h.state e) (h.gone e)).acks = false) :
    ∃ k, h.writes e = some k := by
  apply Option.ne_none_iff_exists'.mp
  intro dropped
  have := (inv.chain e.peer).dropped.mp (by simpa using dropped)
  simp [silent] at this

end

end Inv

variable (h : Handshake)

@[simps -fullyApplied]
def say (e : End) (x : Signal) : Handshake :=
  { h with box := update h.box e.peer (h.box e.peer ++ [x]) }

@[simps -fullyApplied]
def hear (e : End) : Handshake :=
  { h with box := update h.box e (h.box e).tail }

@[simps -fullyApplied]
def move (e : End) (state : PipeState) : Handshake :=
  { h with state := update h.state e state }

/-- `e` drops its outbound queue and confirms the termination. -/
@[simp] def answer (e : End) (state : PipeState) : Handshake :=
  { h.move e state with writes := update h.writes e none }.say e .ack

@[simps -fullyApplied]
def leave (e : End) : Handshake :=
  { h with
    gone := update h.gone e true
    held := update h.held e (update (h.held e) (h.reads e) false) }

/-- `e` starts reading from a new queue and tells its peer. -/
@[simp] def renew (e : End) : Handshake :=
  { h with
    reads := update h.reads e (h.reads e + 1)
    held := update h.held e (update (h.held e) (h.reads e + 1) true) }.say e
      (.hiccup (h.reads e + 1))

/-- `e` frees the queue it wrote to and takes the one a hiccup brought. -/
@[simps -fullyApplied]
def replace (e : End) (old pipe : Nat) : Handshake :=
  { h with
    writes := update h.writes e (some pipe)
    held := update h.held e.peer (update (h.held e.peer) old false) }

section Fields

variable (h : Handshake) (e : End)

theorem answer_move (st st') : (h.move e st).answer e st' = h.answer e st' := by
  simp [answer, move]

@[simp] theorem pipes_append (u v : List Signal) :
    Signal.pipes (u ++ v) = Signal.pipes u ++ Signal.pipes v := List.filterMap_append
@[simp] theorem pipes_talk : Signal.pipes [.talk] = [] := rfl
@[simp] theorem pipes_term : Signal.pipes [.term] = [] := rfl
@[simp] theorem pipes_ack : Signal.pipes [.ack] = [] := rfl
@[simp] theorem pipes_hiccup (k : Nat) : Signal.pipes [.hiccup k] = [k] := rfl

end Fields

theorem Inv.of_ends {h : Handshake} (e : End)
    (own : absorb Phase.next (Phase.heard (h.state e) (h.gone e)) (h.box e) =
      some (Phase.said (h.state e.peer) (h.gone e.peer)))
    (other : absorb Phase.next (Phase.heard (h.state e.peer) (h.gone e.peer)) (h.box e.peer) =
      some (Phase.said (h.state e) (h.gone e)))
    (into : h.Chain e) (out : h.Chain e.peer) : h.Inv where
  synced := e.both own (by simpa using other)
  chain := e.both into out

/-- A chain depends on the writer's answer, the hiccups in flight, and the
    reader's queues only. -/
def view (h : Handshake) (e : End) :=
  (Signal.pipes (h.box e.peer), (Phase.said (h.state e.peer) (h.gone e.peer)).acks,
    h.writes e.peer, h.reads e, h.held e, h.gone e)

theorem Chain.congr {h h' : Handshake} {e : End} (chain : h.Chain e)
    (same : h'.view e = h.view e) : h'.Chain e := by
  simp only [view, Prod.mk.injEq] at same
  obtain ⟨pipes, said, writes, reads, held, gone⟩ := same
  refine ⟨?_, ?_, ?_⟩
  · rw [writes, said]
    exact chain.dropped
  · rw [writes, pipes, reads, held]
    exact chain.linked
  · rw [writes, pipes, reads, held, gone]
    exact chain.parted

theorem Chain.leave {h h' : Handshake} {e : End} (chain : h.Chain e)
    (answered : (Phase.said (h.state e.peer) (h.gone e.peer)).acks = true)
    (same : h'.view e = (Signal.pipes (h.box e.peer), true, h.writes e.peer, h.reads e,
      update (h.held e) (h.reads e) false, true)) : h'.Chain e := by
  have dropped := chain.dropped.mpr answered
  obtain ⟨quiet, alloc⟩ := chain.parted dropped
  simp only [view, Prod.mk.injEq] at same
  obtain ⟨pipes, said, writes, reads, held, gone⟩ := same
  refine ⟨by simp [writes, said, dropped], by simp [writes, dropped],
    fun _ => ⟨pipes.trans quiet, fun j => ?_⟩⟩
  rw [held, reads, gone]
  by_cases same : j = h.reads e
  · simp [same]
  · simpa [same] using (alloc j).not

section Moves

variable {h : Handshake} {e : End}

section

variable (inv : h.Inv)
include inv

/-- With no hiccup in flight a writer that answers leaves exactly the reader's
    own queue behind. -/
theorem Inv.part {h' : Handshake} (quiet : Signal.pipes (h.box e) = [])
    (silent : (Phase.said (h.state e) (h.gone e)).acks = false) (writes : h'.writes e = none)
    (said : (Phase.said (h'.state e) (h'.gone e)).acks = true)
    (pipes : Signal.pipes (h'.box e) = []) (reads : h'.reads e.peer = h.reads e.peer)
    (held : h'.held e.peer = h.held e.peer) (gone : h'.gone e.peer = h.gone e.peer) :
    h'.Chain e.peer := by
  refine ⟨by simp [writes, said], by simp [writes], fun _ => ⟨by simpa using pipes, fun j => ?_⟩⟩
  obtain ⟨k, here⟩ := inv.writes_isSome silent
  obtain ⟨le, word, alloc⟩ := (inv.chain e.peer).linked k (by simpa using here)
  rw [End.peer_peer, quiet] at word
  have same : h.reads e.peer = k := by
    have := congrArg List.length word
    simp only [List.length_nil, List.length_range'] at this
    omega
  rw [held, reads, alloc, same, gone, inv.peer_stays silent]
  constructor
  · intro bounds
    exact ⟨by omega, rfl⟩
  · rintro ⟨rfl, -⟩
    omega

theorem Inv.tells {p q : Phase} (said : Phase.said (h.state e) (h.gone e) = p) {x : Signal}
    (next : Phase.next p x = some q) :
    absorb Phase.next (Phase.heard (h.state e.peer) (h.gone e.peer)) (h.box e.peer ++ [x]) =
      some q := by
  have synced := inv.synced e.peer
  rw [End.peer_peer, said] at synced
  rw [absorb_snoc x synced, next]

theorem Inv.talk (silent : (Phase.said (h.state e) (h.gone e)).acks = false) :
    (h.say e .talk).Inv := by
  refine .of_ends e ?_ ?_ ?_ ?_
  · simpa using inv.synced e
  · simpa using inv.tells rfl (Phase.next_talk silent)
  · exact (inv.chain e).congr (by simp [view])
  · exact (inv.chain e.peer).congr (by simp [view])

theorem Inv.hearTalk {rest} (at_head : h.box e = .talk :: rest) : (h.hear e).Inv := by
  refine .of_ends e ?_ ?_ ?_ ?_
  · have heard := inv.synced e
    rw [at_head, absorb_cons] at heard
    obtain ⟨p, moved, onward⟩ := Option.bind_eq_some_iff.mp heard
    obtain rfl := Phase.eq_of_talk moved
    simpa [at_head] using onward
  · simpa using inv.synced e.peer
  · exact (inv.chain e).congr (by simp [view])
  · exact (inv.chain e.peer).congr (by simp [view, at_head, Signal.pipes])

theorem Inv.relabel {state : PipeState}
    (said : Phase.said state (h.gone e) = Phase.said (h.state e) (h.gone e))
    (heard : Phase.heard state (h.gone e) = Phase.heard (h.state e) (h.gone e)) :
    (h.move e state).Inv := by
  refine .of_ends e ?_ ?_ ?_ ?_
  · simpa [heard] using inv.synced e
  · simpa [said] using inv.synced e.peer
  · exact (inv.chain e).congr (by simp [view])
  · exact (inv.chain e.peer).congr (by simp [view, said])

omit inv in
theorem opened_of_state (stays : h.gone e = false)
    (state : h.state e = .active ∨ h.state e = .delimiterReceived) :
    Phase.said (h.state e) (h.gone e) = .opened ∧ Phase.heard (h.state e) (h.gone e) = .opened := by
  rcases state with state | state <;> rw [state, stays] <;> exact ⟨rfl, rfl⟩

theorem Inv.ask (stays : h.gone e = false)
    (state : h.state e = .active ∨ h.state e = .delimiterReceived) :
    ((h.say e .term).move e .termReqSent1).Inv := by
  obtain ⟨silent, untold⟩ := opened_of_state stays state
  refine .of_ends e ?_ ?_ ?_ ?_
  · have heard := inv.synced e
    rw [untold] at heard
    simpa [stays, Phase.heard] using heard
  · simpa [stays, Phase.said] using inv.tells silent (x := .term) rfl
  · exact (inv.chain e).congr (by simp [view])
  · apply (inv.chain e.peer).congr
    simp [view, silent]
    rw [stays]
    rfl

theorem Inv.wait {rest} (at_head : h.box e = .term :: rest)
    (state : h.state e = .active ∨ h.state e = .delimiterReceived) :
    ((h.hear e).move e .waitingForDelimiter).Inv := by
  have stays := (inv.state_of_term at_head).1
  obtain ⟨silent, untold⟩ := opened_of_state stays state
  refine .of_ends e ?_ ?_ ?_ ?_
  · have heard := inv.synced e
    rw [untold, at_head, absorb_cons] at heard
    simpa [at_head, stays, Phase.heard, Phase.next] using heard
  · have said := inv.synced e.peer
    rw [End.peer_peer, silent] at said
    simpa [Phase.said] using said
  · exact (inv.chain e).congr (by simp [view])
  · apply (inv.chain e.peer).congr
    simp [view, at_head, Signal.pipes, silent]
    rw [stays]
    rfl

theorem Inv.answer (stays : h.gone e = false)
    (state : h.state e = .waitingForDelimiter) : (h.answer e .termAckSent).Inv := by
  have told : Phase.heard (h.state e) (h.gone e) = .asked := by rw [state, stays]; rfl
  have silent : Phase.said (h.state e) (h.gone e) = .opened := by rw [state, stays]; rfl
  have quiet : Signal.pipes (h.box e) = [] := pipes_of_told (by rw [told]; decide) (inv.synced e)
  refine .of_ends e ?_ ?_ ?_ ?_
  · have heard := inv.synced e
    rw [told] at heard
    simpa [stays, Phase.heard] using heard
  · simpa [Phase.said] using inv.tells silent (x := .ack) rfl
  · exact (inv.chain e).congr (by simp [view])
  · refine inv.part quiet (by rw [silent]; rfl) (by simp) ?_ (by simpa using quiet) rfl rfl rfl
    simp [Phase.said, Phase.acks]

theorem Inv.cross {rest} (at_head : h.box e = .term :: rest)
    (state : h.state e = .termReqSent1) : ((h.hear e).answer e .termReqSent2).Inv := by
  have stays := (inv.state_of_term at_head).1
  have asked : Phase.said (h.state e) (h.gone e) = .asked := by rw [state, stays]; rfl
  have untold : Phase.heard (h.state e) (h.gone e) = .opened := by rw [state, stays]; rfl
  have heard := inv.synced e
  rw [untold, at_head, absorb_cons] at heard
  have quiet : Signal.pipes rest = [] := pipes_of_told (p := .asked) (by decide) heard
  refine .of_ends e ?_ ?_ ?_ ?_
  · simpa [at_head, stays, Phase.heard, Phase.next] using heard
  · simpa [Phase.said] using inv.tells asked (x := .ack) rfl
  · exact (inv.chain e).congr (by simp [view])
  · refine inv.part ?_ (by rw [asked]; rfl) (by simp) ?_ ?_ rfl rfl rfl
    · simpa [at_head, Signal.pipes] using quiet
    · simp [Phase.said, Phase.acks]
    · simpa [at_head] using quiet

theorem Inv.leave {rest} (at_head : h.box e = .ack :: rest)
    (state : h.state e = .termAckSent ∨ h.state e = .termReqSent2) : ((h.hear e).leave e).Inv := by
  obtain ⟨stays, rfl, -⟩ := inv.state_of_ack at_head
  have told : Phase.heard (h.state e) (h.gone e) = .asked := by
    rcases state with state | state <;> rw [state, stays] <;> rfl
  have gone_told : Phase.heard (h.state e) true = .closed := by
    rcases state with state | state <;> rw [state] <;> rfl
  have gone_said : Phase.said (h.state e) true = Phase.said (h.state e) (h.gone e) := by
    rcases state with state | state <;> rw [state] <;> rfl
  have heard := inv.synced e
  rw [told, at_head] at heard
  have peer_closed : .closed = Phase.said (h.state e.peer) (h.gone e.peer) := by
    simpa [Phase.next] using heard
  refine .of_ends e ?_ ?_ ?_ ?_
  · simp [at_head, gone_told, peer_closed]
  · have said := inv.synced e.peer
    simpa [gone_said] using said
  · refine (inv.chain e).leave (by rw [← peer_closed]; rfl) ?_
    simp [view, ← peer_closed, Phase.acks]
  · exact (inv.chain e.peer).congr (by simp [view, at_head, Signal.pipes, gone_said])

theorem Inv.answerAndLeave {rest} (at_head : h.box e = .ack :: rest)
    (state : h.state e = .termReqSent1) : (((h.hear e).answer e .termReqSent1).leave e).Inv := by
  obtain ⟨stays, rfl, -⟩ := inv.state_of_ack at_head
  have asked : Phase.said (h.state e) (h.gone e) = .asked := by rw [state, stays]; rfl
  have untold : Phase.heard (h.state e) (h.gone e) = .opened := by rw [state, stays]; rfl
  have heard := inv.synced e
  rw [untold, at_head] at heard
  have peer_acked : .acked = Phase.said (h.state e.peer) (h.gone e.peer) := by
    simpa [Phase.next] using heard
  refine .of_ends e ?_ ?_ ?_ ?_
  · simp [at_head, Phase.heard, peer_acked]
  · simpa [Phase.said] using inv.tells asked (x := .ack) rfl
  · refine (inv.chain e).leave (by rw [← peer_acked]; rfl) ?_
    simp [view, ← peer_acked, Phase.acks]
  · refine inv.part ?_ (by rw [asked]; rfl) (by simp) ?_ ?_ rfl (by simp) (by simp)
    · simp [at_head]
    · simp [Phase.said, Phase.acks]
    · simp [at_head, Signal.pipes]

theorem Inv.renew (stays : h.gone e = false) (state : h.state e = .active) : (h.renew e).Inv := by
  have silent : Phase.said (h.state e) (h.gone e) = .opened := by rw [state, stays]; rfl
  have unanswered : (Phase.said (h.state e.peer) (h.gone e.peer)).acks = false := by
    by_contra answered
    rcases inv.spoke (by simpa using answered) with spoke | spoke <;> rw [silent] at spoke <;>
      cases spoke
  obtain ⟨k, here⟩ := inv.writes_isSome (e := e.peer) unanswered
  obtain ⟨le, word, alloc⟩ := (inv.chain e).linked k here
  refine .of_ends e ?_ ?_ ?_ ?_
  · simpa using inv.synced e
  · simpa [silent] using inv.tells silent (x := .hiccup (h.reads e + 1)) rfl
  · refine ⟨(inv.chain e).dropped, ?_, ?_⟩
    · intro j same
      obtain rfl : k = j := by simpa [here] using same
      refine ⟨by simp; omega, ?_, fun i => ?_⟩
      · simp only [Handshake.renew, say_box, say_reads, update_self, pipes_append, word,
          pipes_hiccup]
        rw [show h.reads e + 1 - k = h.reads e - k + 1 by omega, List.range'_concat]
        congr 2
        omega
      · simp only [Handshake.renew, say_held, say_reads, update_self]
        by_cases last : i = h.reads e + 1
        · simp [last]
          omega
        · rw [update_of_ne last, alloc]
          omega
    · intro none_here
      simp [here] at none_here
  · exact (inv.chain e.peer).congr (by simp [view])

theorem Inv.replace {k : Nat} {rest} (at_head : h.box e = .hiccup k :: rest) :
    ∃ old, h.writes e = some old ∧ ((h.hear e).replace e old k).Inv := by
  have untold : Phase.heard (h.state e) (h.gone e) = .opened :=
    Phase.opened_of_mem (by rw [at_head]; exact List.mem_cons_self) (inv.synced e)
  have silent := Phase.acks_of_heard untold
  obtain ⟨old, here⟩ := inv.writes_isSome silent
  obtain ⟨le, word, alloc⟩ := (inv.chain e.peer).linked old (by simpa using here)
  rw [End.peer_peer, at_head] at word
  have lt : old < h.reads e.peer := by
    have := congrArg List.length word
    simp only [Signal.pipes, List.filterMap_cons, List.length_cons, List.length_range'] at this
    omega
  rw [show h.reads e.peer - old = h.reads e.peer - (old + 1) + 1 by omega, List.range'_succ]
    at word
  obtain ⟨rfl, onward⟩ := List.cons_eq_cons.mp word
  refine ⟨old, here, .of_ends e ?_ ?_ ?_ ?_⟩
  · have heard := inv.synced e
    simpa [at_head, untold, Phase.next] using heard
  · simpa using inv.synced e.peer
  · exact (inv.chain e).congr (by simp [view])
  · refine ⟨?_, ?_, ?_⟩
    · simpa using silent
    · intro j same
      obtain rfl : old + 1 = j := by simpa using same
      refine ⟨by simp; omega, by simpa [at_head, Signal.pipes] using onward, fun i => ?_⟩
      simp only [replace_held, replace_reads, hear_held, hear_reads, update_self]
      by_cases first : i = old
      · rw [first, update_self]
        exact iff_of_false (by simp) (by omega)
      · rw [update_of_ne first, alloc]
        omega
    · intro none_here
      simp at none_here

end

end Moves

end Handshake

end Zmq
