import Zmq.Pattern.Distribution
import Zmq.Pattern.Trie

/-! # Subscribers

What an `xsub_t` sends upstream. Its subscriptions are cached in a trie and written to every
pipe that is attached or hiccuped. A frame its user sends may be a subscription, a cancellation
or data, and each frame is looked at on its own: a cancellation of something that stays
subscribed to, or never was, is not sent on, also if it is one frame of many.
-/

namespace Zmq

open Lib Balancer

/-- `xsub_t`, as far as it sends. -/
structure Xsub (ι : Type) where
  core : Distributor ι
  subscriptions : Trie
  moreSend : Bool
  processSubscribe : Bool
  onlyFirstSubscribe : Bool
  /-- The frames its user has sent of a message that is not complete. -/
  begun : List Msg := []
  /-- The messages of its user, for all pipes, and the cached subscriptions, for one. -/
  sent : List (Option ι × List Msg) := []

namespace Xsub

variable {ι : Type} [DecidableEq ι] {trie : Trie}

def start (onlyFirstSubscribe immediate : Bool) (hwms : ι → End → Int) : Xsub ι where
  core := .start true immediate hwms
  subscriptions := .empty
  moreSend := false
  processSubscribe := false
  onlyFirstSubscribe := onlyFirstSubscribe

inductive Action (ι : Type) where
  | attach (pipe : ι) (tryLock : Bool)
  /-- `xsend`, also by way of the options of a `sub_t`. -/
  | send (msg : Msg) (tryLock : Bool)
  | call (pipe : ι) (a : Zmq.Action)
  | deliver (pipe : ι) (tryLock : Bool)
  | peer (pipe : ι) (a : Zmq.Action)

/-- How `xsend` takes a frame that it looks at. -/
def request (msg : Msg) : Request :=
  if msg.isSubscribe || msg.data.head? == some 1 then
    .subscribe (if msg.isSubscribe then msg.data else msg.data.tail)
  else if msg.isCancel || msg.data.head? == some 0 then
    .cancel (if msg.isCancel then msg.data else msg.data.tail)
  else .user

variable (s : Xsub ι)

def cached : List Msg := s.subscriptions.apply.map .initSubscribe

def noted (msg : Msg) : Xsub ι :=
  if msg.more then { s with begun := s.begun ++ [msg] }
  else { s with begun := [], sent := s.sent ++ [(none, s.begun ++ [msg])] }

def sendToAll (msg : Msg) (tryLock : Bool) : Except Fault (Xsub ι) := do
  let core ← s.core.send msg tryLock
  .ok { s with core := core }

def process (msg : Msg) (tryLock : Bool) : Except Fault (Xsub ι) :=
  match request msg with
  | .subscribe topic => do
      let (_, trie) ← s.subscriptions.add topic
      sendToAll { s with subscriptions := trie, processSubscribe := true } msg tryLock
  | .cancel topic => do
      let (removed, trie) ← s.subscriptions.rm topic
      let s := { s with subscriptions := trie, processSubscribe := true }
      if removed then s.sendToAll msg tryLock else .ok s
  | .user => s.sendToAll msg tryLock

def xsend (msg : Msg) (tryLock : Bool) : Except Fault (Xsub ι) :=
  let firstPart := !s.moreSend
  let s := { s.noted msg with moreSend := msg.more }
  if firstPart then process { s with processSubscribe := !s.onlyFirstSubscribe } msg tryLock
  else if s.processSubscribe then s.process msg tryLock
  else s.sendToAll msg tryLock

/-- Something other than `xsend`. Subscriptions that were written past the distributor are put
    down. -/
def other (a : Distributor.Action ι) : Except Fault (Xsub ι) := do
  let core ← s.core.step a
  .ok { s with core := core, sent := s.sent ++ core.offered.drop s.core.offered.length }

def distributing : Action ι → Distributor.Action ι
  | .attach pipe tryLock => .attach pipe s.cached tryLock
  | .send msg tryLock => .send msg tryLock
  | .call pipe a => .call pipe a
  | .deliver pipe tryLock => .deliver pipe s.cached tryLock
  | .peer pipe a => .peer pipe a

def step : Action ι → Except Fault (Xsub ι)
  | .send msg tryLock => s.xsend msg tryLock
  | a => s.other (s.distributing a)

/-- Whether the frame is a cancellation of something that stays subscribed to or never was. -/
def idle (msg : Msg) : Bool :=
  match request msg with
  | .cancel topic => s.subscriptions.find topic != 1
  | _ => false

def suppresses (msg : Msg) : Prop :=
  (s.moreSend = true → s.processSubscribe = true) ∧ s.idle msg = true
  deriving Decidable

def Allowed (s : Xsub ι) (a : Action ι) : Prop :=
  s.core.Allowed (s.distributing a) ∧ match a with
    | .send _ _ => ∀ i ∈ s.core.dist.pipes.items, ((s.core.pair i).checkWrite .first).1 = true
    | _ => True

/-- No frame of a message with several frames is a cancellation that is not sent on. Pipes do
    what `Distributor.Steady` says. -/
def Steady (s : Xsub ι) (a : Action ι) : Prop :=
  s.core.Steady (s.distributing a) ∧ match a with
    | .send msg _ => s.suppresses msg → s.moreSend = false ∧ msg.more = false
    | _ => True

instance (a : Action ι) : Decidable (s.Allowed a) := by
  cases a <;> dsimp only [Allowed] <;> infer_instance

instance (a : Action ι) : Decidable (s.Steady a) := by
  cases a <;> dsimp only [Steady] <;> infer_instance

def sentTo (i : ι) : List (List Msg) :=
  (s.sent.filter fun o => o.1 = none ∨ o.1 = some i).map (·.2)

/-- What was flushed on a pipe is some of these messages, in order and with all their frames,
    and the distributor is between messages whenever the user is. -/
def Whole : Prop :=
  (∀ o ∈ s.sent, IsMessage o.2) ∧
  (∀ i k q, (s.core.pair i).queue .second k = some q →
    ∃ messages : List (List Msg), messages.Sublist (s.sentTo i) ∧ q.flushed = messages.flatten) ∧
  (s.moreSend = false → s.core.dist.more = false)

/-! ## The invariant -/

structure Inv (s : Xsub ι) : Prop where
  core : s.core.Inv
  wf : s.subscriptions.Wf
  more : s.core.dist.more = s.moreSend
  begun : s.core.begun = s.begun
  offered : s.core.offered.Sublist s.sent
  frames : ∀ m ∈ s.begun, m.more = true
  messages : ∀ o ∈ s.sent, IsMessage o.2

variable {s s' : Xsub ι} {msg : Msg} {lock : Bool}

theorem Inv.start (onlyFirstSubscribe immediate : Bool) (hwms : ι → End → Int) :
    (start onlyFirstSubscribe immediate hwms).Inv where
  core := .start true immediate hwms
  wf := PrefixTree.wf_empty
  more := rfl
  begun := rfl
  offered := List.Sublist.refl _
  frames := nofun
  messages := nofun

theorem Inv.whole (inv : s.Inv) : s.Whole := by
  refine ⟨inv.messages, fun i k q found => ?_, fun idle => inv.more.trans idle⟩
  obtain ⟨messages, sublist, flushed⟩ := inv.core.whole.2 i k q found
  exact ⟨messages, sublist.trans ((inv.offered.filter _).map _), flushed⟩

section

omit [DecidableEq ι]

@[simp] theorem noted_core (s : Xsub ι) (msg : Msg) : (s.noted msg).core = s.core := by
  unfold noted; split <;> rfl

@[simp] theorem noted_subscriptions (s : Xsub ι) (msg : Msg) :
    (s.noted msg).subscriptions = s.subscriptions := by
  unfold noted; split <;> rfl

@[simp] theorem noted_processSubscribe (s : Xsub ι) (msg : Msg) :
    (s.noted msg).processSubscribe = s.processSubscribe := by
  unfold noted; split <;> rfl

end

section

variable (inv : s.Inv)
include inv

theorem Inv.noted (msg : Msg) : (∀ m ∈ (s.noted msg).begun, m.more = true) ∧
    ∀ o ∈ (s.noted msg).sent, IsMessage o.2 := by
  unfold Xsub.noted
  split
  · rename_i more
    exact ⟨forall_mem_concat inv.frames more, inv.messages⟩
  · rename_i last
    refine ⟨nofun, forall_mem_concat inv.messages ?_⟩
    exact ⟨s.begun, msg, rfl, inv.frames, by simpa using last⟩

theorem Inv.pass (steady : s.core.Steady (.send msg lock)) (wf : trie.Wf)
    (flag : Bool)
    (done : sendToAll { s.noted msg with
      moreSend := msg.more, subscriptions := trie, processSubscribe := flag } msg lock = .ok s') :
    s'.Inv := by
  obtain ⟨core, passed, rfl⟩ := bind_return.mp done
  rw [noted_core] at passed
  have next := inv.core.step steady passed
  obtain ⟨d, pair, -, rfl⟩ := Distributor.send_eq passed
  obtain ⟨frames, messages⟩ := inv.noted msg
  refine ⟨next, wf, by simp, ?_, ?_, frames, messages⟩
  · unfold Distributor.handed Xsub.noted
    split
    · exact congrArg (· ++ [msg]) inv.begun
    · rfl
  · unfold Distributor.handed Xsub.noted
    split
    · exact inv.offered
    · simp only [inv.begun]
      exact inv.offered.append (List.Sublist.refl _)

theorem Inv.drop (idle : s.moreSend = false) (last : msg.more = false) (wf : trie.Wf)
    (flag : Bool) : Inv { s.noted msg with
      moreSend := msg.more, subscriptions := trie, processSubscribe := flag } := by
  obtain ⟨frames, messages⟩ := inv.noted msg
  have between : s.core.dist.more = false := inv.more.trans idle
  have begun : s.core.begun = [] := inv.core.idle between
  refine ⟨by simpa using inv.core, wf, by simp [last, between], ?_, ?_, frames, messages⟩
  · simp [Xsub.noted, last, begun]
  · simp only [Xsub.noted, last]
    exact inv.offered.trans (List.sublist_append_left _ _)

theorem Inv.process (steady : s.core.Steady (.send msg lock)) (flag : Bool)
    (single : s.idle msg = true → s.moreSend = false ∧ msg.more = false)
    (done : process { s.noted msg with moreSend := msg.more, processSubscribe := flag } msg lock =
      .ok s') : s'.Inv := by
  unfold Xsub.process at done
  simp only [noted_subscriptions] at done
  unfold idle at single
  split at done
  · rw [Trie.add_eq inv.wf, ok_bind] at done
    exact inv.pass steady (PrefixTree.wf_grow inv.wf) true done
  · rename_i topic cancel
    rw [Trie.rm_eq inv.wf, ok_bind] at done
    simp only [cancel] at single
    split at done
    · exact inv.pass steady (PrefixTree.wf_shrink inv.wf) true done
    · rename_i kept
      cases done
      obtain ⟨idle, last⟩ := single (by simpa using kept)
      exact inv.drop idle last (PrefixTree.wf_shrink inv.wf) true
  · exact inv.pass steady inv.wf flag (by simpa using done)

theorem Inv.xsend (steady : s.core.Steady (.send msg lock))
    (single : s.suppresses msg → s.moreSend = false ∧ msg.more = false)
    (done : s.xsend msg lock = .ok s') : s'.Inv := by
  unfold Xsub.xsend at done
  simp only at done
  split at done
  · rename_i first
    have idle : s.moreSend = false := by simpa using first
    exact inv.process steady _ (fun idle' => single ⟨by simp [idle], idle'⟩) done
  · rename_i later
    split at done
    · rename_i looks
      have looks : s.processSubscribe = true := by simpa using looks
      exact inv.process steady s.processSubscribe (fun idle => single ⟨fun _ => looks, idle⟩)
        (by simpa using done)
    · exact inv.pass steady inv.wf s.processSubscribe (by simpa using done)

theorem Inv.other {a : Distributor.Action ι} (steady : s.core.Steady a)
    (notSend : ∀ msg lock, a ≠ .send msg lock) (done : s.other a = .ok s') : s'.Inv := by
  obtain ⟨core, taken, rfl⟩ := bind_return.mp done
  have next := inv.core.step steady taken
  obtain ⟨more, begun, extra, offered⟩ :=
    Distributor.step_log inv.core.ok steady.1 notSend taken
  refine ⟨next, inv.wf, more.trans inv.more, begun.trans inv.begun, ?_, inv.frames, ?_⟩
  · simp only [← offered, List.drop_left]
    exact inv.offered.append (List.Sublist.refl _)
  · refine List.forall_mem_append.mpr ⟨inv.messages, fun o new => ?_⟩
    exact next.frames.offered o (List.mem_of_mem_drop new)

theorem Inv.step {a : Action ι} (steady : s.Steady a) (taken : s.step a = .ok s') : s'.Inv := by
  obtain ⟨calm, single⟩ := steady
  cases a with
  | send msg lock => exact inv.xsend calm single taken
  | _ => exact inv.other calm nofun taken

end

/-- In every run in which no frame of a longer message is a cancellation that is not sent on, the
    pipes carry whole messages. -/
theorem steady_upstream_is_whole (onlyFirstSubscribe immediate : Bool) (hwms : ι → End → Int)
    (reached : Reaches step Steady (start onlyFirstSubscribe immediate hwms) s) : s.Whole := by
  have inv : s.Inv := reached.invariant (.start onlyFirstSubscribe immediate hwms)
    fun _ _ _ inv steady taken => inv.step steady taken
  exact inv.whole

theorem steady_upstream_is_whole_two :
    ∃ s : Xsub (Fin 1), Reaches step Steady (start false false fun _ _ => 2) s ∧
      ((s.core.pair 0).queue .second 0).map Upipe.flushed =
        some [{ flags := MsgFlag.more, data := [1, 65] }, { data := [66] }] ∧ s.Whole :=
  exists_run_and
    [.attach 0 true, .send { data := [0, 65] } true,
      .send { flags := MsgFlag.more, data := [1, 65] } true, .send { data := [66] } true]
    (by decide +kernel) fun _ reached _ => steady_upstream_is_whole _ _ _ reached

/-- The last frame of a message is not sent on. The distributor stays in the middle of the
    message, and the next one is glued to it. And a first frame is not sent on while the rest
    of its message is. -/
theorem suppressed_frame_breaks_message :
    (∃ s : Xsub (Fin 1), Reaches step Allowed (start false false fun _ _ => 0) s ∧
      ((s.core.pair 0).queue .second 0).map Upipe.flushed =
        some [{ flags := MsgFlag.more, data := [65] }, { data := [67] }] ∧
      s.sentTo 0 = [[{ flags := MsgFlag.more, data := [65] }, { data := [0, 66] }],
        [{ data := [67] }]] ∧ ¬ s.Whole) ∧
    (∃ s : Xsub (Fin 1), Reaches step Allowed (start false false fun _ _ => 0) s ∧
      s.moreSend = false ∧ s.core.dist.more = true) ∧
    ∃ s : Xsub (Fin 1), Reaches step Allowed (start true false fun _ _ => 0) s ∧
      ((s.core.pair 0).queue .second 0).map Upipe.flushed = some [{ data := [67] }] ∧
      s.sentTo 0 = [[{ flags := MsgFlag.more, data := [0, 66] }, { data := [67] }]] ∧
      ¬ s.Whole := by
  refine ⟨?_, ?_, ?_⟩
  · refine exists_run_and₂
      [.attach 0 true, .send { flags := MsgFlag.more, data := [65] } true,
        .send { data := [0, 66] } true, .send { data := [67] } true]
      (by decide +kernel) fun s _ flushed sent whole => ?_
    have together := Balancer.message_of_frame (m := { flags := MsgFlag.more, data := [65] }) flushed sent
      (whole.2.1 0 0) (by decide)
    exact absurd together (by decide)
  · exact exists_reaches _ _ _
      [.attach 0 true, .send { flags := MsgFlag.more, data := [65] } true,
        .send { data := [0, 66] } true] _ (by decide +kernel)
  · refine exists_run_and₂
      [.attach 0 true, .send { flags := MsgFlag.more, data := [0, 66] } true,
        .send { data := [67] } true]
      (by decide +kernel) fun s _ flushed sent whole => ?_
    have together := Balancer.message_of_frame (m := { data := [67] }) flushed sent
      (whole.2.1 0 0) (by decide)
    exact absurd together (by decide)

end Xsub

end Zmq
