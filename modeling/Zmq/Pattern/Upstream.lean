import Zmq.Pattern.Xpub
import Zmq.Pattern.Xsub

/-! # Subscriptions upstream

What an `xsub_t` has written to a pipe is read by the publisher at the other end. If nothing
gets lost, the publisher holds for this pipe just the topics that are in the trie of the
subscriber. Both look at the first byte of a frame, but in a different order.
-/

namespace Zmq

open Lib Function

namespace Xpub

variable {ι : Type} [LinearOrder ι]

/-- A publisher with default options reads the frames from a pipe. -/
def replay (pipe : ι) (frames : List Msg) : Except Fault (Xpub ι) :=
  frames.foldlM (fun s msg => s.receive pipe msg) (start {} fun _ _ => 0)

/-- The publisher has looked at all frames, and holds these topics for the pipe. -/
structure Holds (s : Xpub ι) (pipe : ι) (topics : List UInt8 → Prop) : Prop where
  manual : s.options.manual = false
  all : s.options.onlyFirstSubscribe = false
  looks : s.moreRecv = true → s.processSubscribe = true
  ok : s.subscriptions.Ok
  members : ∀ topic, pipe ∈ s.subscriptions.subscribers topic ↔ topics topic

variable {s s' : Xpub ι} {pipe : ι} {topics : List UInt8 → Prop} {msg : Msg} {frames : List Msg}

omit [LinearOrder ι] in
theorem Holds.start (pipe : ι) : (start {} fun _ _ => 0).Holds pipe fun _ => False where
  manual := rfl
  all := rfl
  looks := nofun
  ok := .empty
  members topic := by
    rw [show (Xpub.start {} fun (_ : ι) _ => 0).subscriptions = .empty from rfl,
      Mtrie.subscribers_empty]
    simp

theorem Holds.receive (holds : s.Holds pipe topics) (msg : Msg) :
    ∃ s', s.receive pipe msg = .ok s' ∧
      s'.Holds pipe fun topic => asked (topics topic) topic (request msg) := by
  obtain ⟨s', received, heard, processes⟩ := receive_heard holds.manual holds.ok pipe msg
  have whole : s.reading msg = request msg := by
    unfold reading
    cases midway : s.moreRecv with
    | false => rfl
    | true => simp [holds.looks midway]
  refine ⟨s', received, by rw [heard.options, holds.manual], by rw [heard.options, holds.all], ?_,
    heard.ok, fun topic => ?_⟩
  · intro _
    rw [processes, holds.all]
    cases midway : s.moreRecv with
    | false => rfl
    | true => simpa using holds.looks midway
  · rw [heard.members, if_pos rfl, whole]
    cases request msg <;> simp [holds.members]

def Asks (pipe : ι) (frames : List Msg) (topics : List UInt8 → Prop) : Prop :=
  ∃ s, replay pipe frames = .ok s ∧ s.Holds pipe topics

theorem Asks.congr {others : List UInt8 → Prop} (asks : Asks pipe frames topics)
    (same : ∀ topic, topics topic ↔ others topic) : Asks pipe frames others := by
  obtain rfl : topics = others := funext fun topic => propext (same topic)
  exact asks

theorem Asks.snoc (asks : Asks pipe frames topics) (msg : Msg) :
    Asks pipe (frames ++ [msg]) fun topic => asked (topics topic) topic (request msg) := by
  obtain ⟨s, done, holds⟩ := asks
  obtain ⟨s', received, holds'⟩ := holds.receive msg
  refine ⟨s', ?_, holds'⟩
  unfold replay at done ⊢
  rw [List.foldlM_append, done, ok_bind]
  simp [received]

theorem request_initSubscribe (topic : List UInt8) :
    request (.initSubscribe topic) = .subscribe topic := by
  have subscribes : (Msg.initSubscribe topic).isSubscribe = true := by
    simp only [Msg.isSubscribe, Msg.initSubscribe]
    decide
  have plain : (Msg.initSubscribe topic).command = false := by
    simp only [Msg.command, Msg.initSubscribe]
    decide
  simp only [request, subscribes, Msg.commandBody, plain]
  rfl

theorem Asks.subscribe (asks : Asks pipe frames topics) (more : List (List UInt8)) :
    Asks pipe (frames ++ more.map .initSubscribe) fun topic => topics topic ∨ topic ∈ more := by
  induction more generalizing frames topics with
  | nil => simpa using asks
  | cons topic rest ih =>
    have next := ih (asks.snoc (.initSubscribe topic))
    rw [List.append_assoc] at next
    refine next.congr fun t => ?_
    simp [request_initSubscribe, asked, or_assoc]

end Xpub

namespace Xsub

variable {ι : Type} [LinearOrder ι]

variable (s : Xsub ι)

def Roomy : Prop :=
  ∀ i ∈ s.core.dist.pipes.items, ((s.core.pair i).pipe .first).state = .active →
    ((s.core.pair i).pipe .first).outActive = true
  deriving Decidable

def Asking (msg : Msg) : Prop :=
  msg.command = false ∧ Xpub.request msg ≠ .user
  deriving Decidable

/-- The user subscribes and cancels, and no pipe gets full. -/
def Subscribing (a : Action ι) : Prop :=
  s.core.Allowed (s.distributing a) ∧
  (match a with
    | .send msg _ => Asking msg
    | _ => True) ∧
  match s.step a with
  | .ok s' => s'.Roomy
  | .error _ => True

/-- Pipes are attached between messages, no count wraps around and no cancellation looks like a
    subscription. -/
def Distinct (a : Action ι) : Prop :=
  s.Subscribing a ∧ match a with
    | .attach .. => s.core.dist.more = false
    | .send msg _ => ¬ (msg.isCancel = true ∧ msg.data.head? = some 1) ∧
        match request msg with
        | .subscribe topic => s.subscriptions.find topic + 1 ≠ 0
        | _ => True
    | _ => True

theorem request_eq {msg : Msg} (plain : msg.command = false)
    (apart : ¬ (msg.isCancel = true ∧ msg.data.head? = some 1)) :
    request msg = Xpub.request msg := by
  unfold request Xpub.request Msg.commandBody
  cases subscribe : msg.isSubscribe with
  | true => simp [plain]
  | false =>
    cases cancel : msg.isCancel with
    | true =>
      have other : (msg.data.head? == some 1) = false := by simpa [cancel] using apart
      simp [plain, other]
    | false =>
      cases data : msg.data with
      | nil => rfl
      | cons first topic =>
        by_cases one : first = 1
        · subst one
          rfl
        · by_cases zero : first = 0
          · subst zero
            rfl
          · simp [one, zero]

/-- What was written to each pipe makes the publisher hold the topics of the trie. -/
def Upstream : Prop :=
  ∀ i ∈ s.core.dist.pipes.items, ((s.core.pair i).pipe .first).state = .active →
    ∃ x, Xpub.replay i ((s.core.pair i).written .first) = .ok x ∧
      ∀ topic, i ∈ x.subscriptions.subscribers topic ↔ s.subscriptions.find topic ≠ 0

/-! ## The invariant -/

/-- A pipe that is attached and open is active, and has got the topics. -/
structure Serves (d : Dist ι) (trie : Trie) (i : ι) (t : Pair) : Prop where
  sound : t.Sound
  free : t.LockFree
  unheard : (t.pipe .first).state = .active → t.Unheard .first
  stays : i ∈ d.pipes.items → (t.pipe .first).deleted = false
  fresh : i ∉ d.pipes.items → (t.pipe .first).deleted = false → t.written .first = []
  active : i ∈ d.pipes.items → (t.pipe .first).state = .active → d.isActive i
  asks : i ∈ d.pipes.items → (t.pipe .first).state = .active →
    Xpub.Asks i (t.written .first) fun topic => trie.find topic ≠ 0

structure Follows (s : Xsub ι) : Prop where
  subscriber : s.core.subscriber = true
  ok : s.core.dist.Ok
  wf : s.subscriptions.Wf
  looks : s.moreSend = true → s.processSubscribe = true
  live : s.Roomy
  serves : ∀ i, Serves s.core.dist s.subscriptions i (s.core.pair i)

namespace Serves

variable {i : ι} {t t' : Pair} {d d' : Dist ι} {trie trie' : Trie} {a : Zmq.Action}

theorem attached (hwms : End → Int) :
    Serves (.empty : Dist ι) trie i (.attached hwms fun _ => false) where
  sound := Pair.attached_sound _ _
  free := Pair.attached_lockFree _
  unheard _ := Pair.Unheard.attached _
  stays := nofun
  fresh _ _ := Pair.written_attached _
  active := nofun
  asks := nofun

theorem reader (serves : Serves d trie i t) (can : t.CanAct (.second, a))
    (outcome : t.Outcome .second a t') : Serves d trie i t' := by
  have same : t'.pipe .first = t.pipe .first := outcome.pipe_peer
  have sound := outcome.sound serves.sound can
  have written : t'.written .first = t.written .first :=
    Pair.Outcome.written_reader (e := .first) serves.sound sound outcome
  refine ⟨sound, serves.free.outcome outcome, fun active => ?_, ?_, ?_, ?_, ?_⟩
  · rw [same] at active
    exact Pair.Unheard.reader (e := .first) (serves.unheard active) serves.free outcome
  · rw [same]
    exact serves.stays
  · rw [same, written]
    exact serves.fresh
  · rw [same]
    exact serves.active
  · rw [same, written]
    exact serves.asks

theorem writer (serves : Serves d trie i t) (member : i ∈ d.pipes.items)
    (can : t.CanAct (.first, a)) (outcome : t.Outcome .first a t') (aside : a.aside = true)
    (calm : a = .deliver → ∀ k, (t.mailbox .first).head? ≠ some (.hiccup k))
    (stays : (t'.pipe .first).deleted = false) : Serves d trie i t' where
  sound := outcome.sound serves.sound can
  free := serves.free.outcome outcome
  unheard active := (serves.unheard (outcome.active active)).aside outcome aside calm active
  stays _ := stays
  fresh gone := absurd member gone
  active _ active := serves.active member (outcome.active active)
  asks _ active := by
    rw [outcome.written_aside aside calm active]
    exact serves.asks member (outcome.active active)

theorem closed (sound : t.Sound) (free : t.LockFree) (shut : (t.pipe .first).state ≠ .active)
    (stays : i ∈ d.pipes.items ↔ (t.pipe .first).deleted = false) : Serves d trie i t where
  sound := sound
  free := free
  unheard active := absurd active shut
  stays := stays.mp
  fresh gone stays' := absurd (stays.mpr stays') gone
  active _ active := absurd active shut
  asks _ active := absurd active shut

theorem move (serves : Serves d trie i t) (mem : i ∈ d'.pipes.items ↔ i ∈ d.pipes.items)
    (active : d.isActive i → d'.isActive i) : Serves d' trie i t where
  __ := serves
  stays member := serves.stays (mem.mp member)
  fresh gone := serves.fresh fun member => gone (mem.mpr member)
  active member open_ := active (serves.active (mem.mp member) open_)
  asks member := serves.asks (mem.mp member)

theorem retitle (serves : Serves d trie i t)
    (same : ∀ topic, trie.find topic ≠ 0 ↔ trie'.find topic ≠ 0) : Serves d trie' i t where
  __ := serves
  asks member open_ := (serves.asks member open_).congr same

theorem sendAll {topics : List (List UInt8)} {lock : Bool} (sound : t.Sound) (free : t.LockFree)
    (unheard : (t.pipe .first).state = .active → t.Unheard .first)
    (stays : (t.pipe .first).deleted = false) (empty : t.written .first = [])
    (member : i ∈ d.pipes.items) (active : d.isActive i)
    (all : ∀ topic, topic ∈ topics ↔ trie.find topic ≠ 0)
    (done : t.sendAll .first (topics.map .initSubscribe) lock = .ok t')
    (live : (t'.pipe .first).state = .active → (t'.pipe .first).outActive = true) :
    Serves d trie i t' := by
  obtain ⟨sound', free', stays', state⟩ := Pair.sendAll_sound sound free stays done
  have all_written (open_ : (t'.pipe .first).state = .active) :=
    Pair.sendAll_written sound free (unheard (state ▸ open_)) stays done open_ (live open_)
  refine ⟨sound', free', fun open_ => (all_written open_).2, fun _ => stays',
    fun gone => absurd member gone, fun _ _ => active, fun _ open_ => ?_⟩
  rw [(all_written open_).1, empty]
  have none : Xpub.Asks i [] fun _ => False := ⟨_, rfl, .start i⟩
  exact (none.subscribe topics).congr fun topic => by simp [all]

theorem skip (serves : Serves d trie i t) (mem : i ∈ d'.pipes.items ↔ i ∈ d.pipes.items)
    (outside : ¬ d.isActive i) : Serves d' trie' i t where
  __ := serves
  stays member := serves.stays (mem.mp member)
  fresh gone := serves.fresh fun member => gone (mem.mpr member)
  active member open_ := absurd (serves.active (mem.mp member) open_) outside
  asks member open_ := absurd (serves.active (mem.mp member) open_) outside

theorem offered {msg : Msg} {b : Bool} (serves : Serves d trie i t)
    (mem : i ∈ d'.pipes.items ↔ i ∈ d.pipes.items) (member : i ∈ d.pipes.items)
    (tried : t.Offered msg b t') (active : b = true → d'.isActive i)
    (live : (t'.pipe .first).state = .active → (t'.pipe .first).outActive = true)
    (topics : ∀ topic, Xpub.asked (trie.find topic ≠ 0) topic (Xpub.request msg) ↔
      trie'.find topic ≠ 0) : Serves d' trie' i t' := by
  have free := tried.lockFree serves.free
  have stays := tried.deleted.trans (serves.stays member)
  cases b with
  | true =>
    obtain ⟨state, written, unheard⟩ := tried.written serves.free
    refine ⟨tried.sound serves.sound, free, fun open_ => ?_, fun _ => stays,
      fun gone => absurd (mem.mpr member) gone, fun _ _ => active rfl, fun _ open_ => ?_⟩
    · rw [state] at open_
      exact unheard (serves.unheard open_)
    · rw [state] at open_
      rw [written]
      exact ((serves.asks member open_).snoc msg).congr topics
  | false =>
    refine .closed (tried.sound serves.sound) free (fun open_ => ?_) (by simp [mem, member, stays])
    cases tried with
    | refused writing => cases (writing.accepted open_ (live open_)).1

end Serves

namespace Follows

variable {s s' : Xsub ι} {i : ι} {t : Pair} {d : Dist ι} {msg : Msg} {lock : Bool}

theorem upstream (follows : s.Follows) : s.Upstream := by
  intro i member active
  obtain ⟨x, done, holds⟩ := (follows.serves i).asks member active
  exact ⟨x, done, holds.members⟩

theorem start (onlyFirstSubscribe immediate : Bool) (hwms : ι → End → Int) :
    (start onlyFirstSubscribe immediate hwms).Follows where
  subscriber := rfl
  ok := .empty
  wf := PrefixTree.wf_empty
  looks := nofun
  live := nofun
  serves _ := .attached _

theorem sent {core : Distributor ι} (trie : Trie) (follows : s.Follows)
    (done : s.core.send msg lock = .ok core)
    (live : ∀ i ∈ core.dist.pipes.items, ((core.pair i).pipe .first).state = .active →
      ((core.pair i).pipe .first).outActive = true)
    (topics : ∀ topic, Xpub.asked (s.subscriptions.find topic ≠ 0) topic (Xpub.request msg) ↔
      trie.find topic ≠ 0) :
    core.subscriber = true ∧ core.dist.Ok ∧ ∀ i, Serves core.dist trie i (core.pair i) := by
  obtain ⟨d, pair, distributed, rfl⟩ := Distributor.send_eq done
  have all : s.core.sending = { s.core.dist with matching := s.core.dist.active } :=
    if_pos follows.subscriber
  have ok : s.core.sending.Ok := by
    rw [all]
    exact follows.ok.all
  have matching (i : ι) : s.core.sending.isMatching i ↔ s.core.dist.isActive i := by
    rw [all]
    exact Iff.rfl
  have result := Dist.distribute_distributed ok (fun i => (follows.serves i).sound)
    (fun i member => (follows.serves i).stays (by rwa [Distributor.sending_pipes] at member))
    distributed
  have mem (i : ι) : i ∈ d.pipes.items ↔ i ∈ s.core.dist.pipes.items := by
    rw [result.mem, Distributor.sending_pipes]
  simp only [Distributor.handed_dist, Distributor.handed_pair, Distributor.handed_subscriber] at live ⊢
  refine ⟨follows.subscriber, result.ok.sent msg.more, fun i => ?_⟩
  by_cases active : s.core.dist.isActive i
  · have member := active.mem
    obtain ⟨b, tried, -, stays, -⟩ := result.tried i ((matching i).mpr active)
    exact (follows.serves i).offered (mem i) member tried
      (fun taken => result.ok.active_sent msg.more (stays.mpr taken))
      (live i ((mem i).mpr member)) topics
  · obtain ⟨same, -⟩ := result.others i fun there => active ((matching i).mp there)
    rw [same]
    exact (follows.serves i).skip (mem i) active

section

variable (follows : s.Follows)
include follows

section

variable (asking : Asking msg) (apart : ¬ (msg.isCancel = true ∧ msg.data.head? = some 1))
  (counts : match request msg with
    | .subscribe topic => s.subscriptions.find topic + 1 ≠ 0
    | _ => True)
include asking apart counts

theorem process {flag : Bool}
    (done : process { s.noted msg with moreSend := msg.more, processSubscribe := flag } msg lock =
      .ok s') (live : s'.Roomy) : s'.Follows := by
  have same := request_eq asking.1 apart
  unfold Xsub.process at done
  simp only [noted_subscriptions] at done
  cases asked : request msg with
  | subscribe topic =>
    rw [asked] at same counts
    simp only [asked, Trie.add_eq follows.wf] at done
    obtain ⟨core, sent, rfl⟩ := bind_return.mp done
    rw [noted_core] at sent
    obtain ⟨subscriber, ok, serves⟩ := follows.sent
      (s.subscriptions.grow (· + 1) topic) sent live fun t => by
        rw [← same, PrefixTree.find_grow]
        by_cases equal : t = topic
        · simp [equal, Xpub.asked, counts]
        · simp [equal, Xpub.asked]
    exact ⟨subscriber, ok, PrefixTree.wf_grow follows.wf, fun _ => rfl, live, serves⟩
  | cancel topic =>
    rw [asked] at same
    simp only [asked, Trie.rm_eq follows.wf, ok_bind] at done
    have found (t : List UInt8) : (s.subscriptions.shrink Trie.decrease topic).find t =
        if t = topic then Trie.decrease (s.subscriptions.find topic)
        else s.subscriptions.find t := PrefixTree.find_shrink follows.wf rfl t
    split at done
    · rename_i last
      obtain ⟨core, sent, rfl⟩ := bind_return.mp done
      rw [noted_core] at sent
      obtain ⟨subscriber, ok, serves⟩ := follows.sent
        (s.subscriptions.shrink Trie.decrease topic) sent live fun t => by
          rw [← same, found]
          by_cases equal : t = topic
          · have one : s.subscriptions.find topic = 1 := by simpa using last
            simp [equal, Xpub.asked, one, Trie.decrease]
          · simp [equal, Xpub.asked]
      exact ⟨subscriber, ok, PrefixTree.wf_shrink follows.wf, fun _ => rfl, live, serves⟩
    · -- the topic stays subscribed to, or never was
      rename_i kept
      cases done
      have same (t : List UInt8) : s.subscriptions.find t ≠ 0 ↔
          (s.subscriptions.shrink Trie.decrease topic).find t ≠ 0 := by
        rw [found]
        by_cases equal : t = topic
        · have other : s.subscriptions.find topic ≠ 1 := by simpa using kept
          rw [if_pos equal, equal, ne_eq, ne_eq, Trie.decrease_eq_zero]
          simp [other]
        · rw [if_neg equal]
      have serves (i : ι) := (follows.serves i).retitle same
      exact ⟨by simpa using follows.subscriber, by simpa using follows.ok,
        PrefixTree.wf_shrink follows.wf, fun _ => rfl, live, by simpa using serves⟩
  | user => exact absurd (same.symm.trans asked) asking.2

theorem xsend (done : s.xsend msg lock = .ok s') (live : s'.Roomy) : s'.Follows := by
  unfold Xsub.xsend at done
  simp only at done
  split at done
  · exact follows.process asking apart counts done live
  · rename_i later
    have looks : s.processSubscribe = true := follows.looks (by simpa using later)
    simp only [noted_processSubscribe, looks] at done
    exact follows.process asking apart counts done live

end

variable {sent : List (Option ι × List Msg)}

variable {core : Distributor ι}

theorem pipe (same : core = { s.core with pair := update s.core.pair i t, offered := core.offered })
    (live : Roomy { s with core := core, sent := sent })
    (serves : Serves s.core.dist s.subscriptions i t) :
    Follows { s with core := core, sent := sent } := by
  rw [same] at live ⊢
  refine { follows with live := live, serves := ?_ }
  exact (forall_update_iff s.core.pair fun j t =>
    Serves s.core.dist s.subscriptions j t).mpr ⟨serves, fun j _ => follows.serves j⟩

theorem mem_topics (topic : List UInt8) :
    topic ∈ s.subscriptions.apply ↔ s.subscriptions.find topic ≠ 0 :=
  Trie.mem_apply follows.wf

theorem attach (stays : ((s.core.pair i).pipe .first).deleted = false)
    (idle : s.core.dist.more = false) (done : s.core.step (.attach i s.cached lock) = .ok core)
    (live : Roomy { s with core := core, sent := sent }) :
    Follows { s with core := core, sent := sent } := by
  obtain ⟨d, attached, written⟩ := bind_ok.mp done
  obtain ⟨t, wrote, rfl⟩ := bind_return.mp written
  obtain ⟨new, becomes⟩ := Dist.attach_becomes follows.ok attached
  refine ⟨follows.subscriber, becomes.ok, follows.wf, follows.looks, live, ?_⟩
  refine (forall_update_iff s.core.pair fun j t =>
    Serves d s.subscriptions j t).mpr ⟨?_, fun j other => ?_⟩
  · have member : i ∈ d.pipes.items := (becomes.mem i).mpr (.inr rfl)
    have before := follows.serves i
    refine .sendAll before.sound before.free before.unheard stays (before.fresh new stays) member
      ((becomes.isActive i).mpr (.inr ⟨idle, rfl⟩)) follows.mem_topics wrote ?_
    simpa using live i member
  · refine (follows.serves j).move ?_ fun active => (becomes.isActive j).mpr (.inl active)
    rw [becomes.mem, or_iff_left other]

theorem hiccuped {k : Nat} {event : Option Event} (member : i ∈ s.core.dist.pipes.items)
    (head : ((s.core.pair i).mailbox .first).head? = some (.hiccup k))
    (outcome : (s.core.pair i).Outcome .first .deliver t)
    (told : event =
      if ((s.core.pair i).pipe .first).state = .active then some .hiccuped else none)
    (state : (t.pipe .first).state = ((s.core.pair i).pipe .first).state)
    (stays : (t.pipe .first).deleted = false)
    (done : Distributor.react { s.core with pair := update s.core.pair i t } i s.cached
      lock event = .ok core)
    (live : Roomy { s with core := core, sent := sent }) :
    Follows { s with core := core, sent := sent } := by
  have waiting : (s.core.pair i).mailbox .first ≠ [] := by
    intro empty
    simp [empty] at head
  have before := follows.serves i
  have sound := outcome.sound before.sound waiting
  have free := before.free.outcome outcome
  by_cases active : ((s.core.pair i).pipe .first).state = .active
  · rw [told, if_pos active] at done
    simp only [Distributor.react, Distributor.hiccuped] at done
    split at done
    · -- the pipe is closed at once
      obtain ⟨v, ended, rfl⟩ := bind_return.mp done
      simp only [update_self] at ended
      have outcome' : t.Outcome .first (.terminate false lock) v :=
        sound.outcome stays (by rintro ⟨⟩) ended
      have closed := outcome'.closed
      refine follows.pipe (i := i) (t := v) (by simp) live ?_
      exact .closed (outcome'.sound sound stays) (free.outcome outcome') closed
        (by simp [member, (outcome'.deleted (by simp)).trans stays])
    · rw [if_pos follows.subscriber] at done
      obtain ⟨v, wrote, rfl⟩ := bind_return.mp done
      simp only [update_self] at wrote
      obtain ⟨unheard, empty⟩ := (before.unheard active).hiccuped sound head outcome
      refine follows.pipe (i := i) (t := v) (by simp) live ?_
      refine .sendAll sound free (fun _ => unheard) stays empty member
        (before.active member active) follows.mem_topics wrote ?_
      simpa using live i member
  · rw [told, if_neg active] at done
    cases done
    refine follows.pipe rfl live ?_
    exact .closed sound free (by rwa [state]) (by simp [member, stays])

theorem deliver (member : i ∈ s.core.dist.pipes.items)
    (waiting : (s.core.pair i).mailbox .first ≠ [])
    (done : s.core.step (.deliver i s.cached lock) = .ok core)
    (live : Roomy { s with core := core, sent := sent }) :
    Follows { s with core := core, sent := sent } := by
  obtain ⟨⟨t, event⟩, delivered, reacts⟩ := bind_ok.mp done
  have before := follows.serves i
  obtain ⟨c, rest, at_head, receiving, outcome⟩ := before.sound.receiving waiting delivered
  have stays := before.stays member
  have serves (quiet : c.isHiccup = false) (stays : (t.pipe .first).deleted = false) :
      Serves s.core.dist s.subscriptions i t := by
    refine before.writer (a := .deliver) member waiting outcome rfl (fun _ k head => ?_) stays
    obtain rfl : c = .hiccup k := by simpa [at_head] using head
    cases quiet
  cases receiving with
  | writeWoken asleep active =>
    have awake := follows.live i member active
    rw [Pair.setMailbox_pipe] at asleep
    rw [asleep] at awake
    cases awake
  | leaves state | answersAndLeaves state =>
    have closed : ((s.core.pair i).pipe .first).state ≠ .active := by
      intro active
      simp [active] at state
    obtain ⟨d, removed, rfl⟩ := bind_return.mp reacts
    have becomes := Dist.pipeTerminated_becomes follows.ok member removed
    refine ⟨follows.subscriber, becomes.ok, follows.wf, follows.looks, live, ?_⟩
    refine (forall_update_iff s.core.pair fun j t =>
      Serves d s.subscriptions j t).mpr ⟨?_, fun j other => ?_⟩
    · refine .closed (outcome.sound before.sound waiting) (before.free.outcome outcome)
        (fun active => closed (outcome.active active)) ?_
      simp [becomes.mem]
    · refine (follows.serves j).move ?_ fun active => (becomes.isActive j).mpr ⟨active, other⟩
      rw [becomes.mem, and_iff_left other]
  | readWoken | readIgnored | writeNoted | published | limited | waits | answers | crosses =>
    cases reacts
    exact follows.pipe rfl live (serves rfl (by simpa [Pipe.setHwms] using stays))
  | replaced here found =>
    exact follows.hiccuped member (by rw [at_head]; rfl) outcome rfl (by simp)
      (by simpa using stays) reacts live

theorem step {a : Action ι} (distinct : s.Distinct a) (taken : s.step a = .ok s') : s'.Follows := by
  obtain ⟨⟨allowed, asking, room⟩, special⟩ := distinct
  rw [taken] at room
  cases a with
  | send msg lock => exact follows.xsend asking special.1 special.2 taken room
  | attach i lock =>
    obtain ⟨core, done, rfl⟩ := bind_return.mp taken
    exact follows.attach allowed.1 special done room
  | deliver i lock =>
    obtain ⟨core, done, rfl⟩ := bind_return.mp taken
    exact follows.deliver allowed.1 allowed.2.1 done room
  | call i a =>
    obtain ⟨core, done, rfl⟩ := bind_return.mp taken
    obtain ⟨t, called, rfl⟩ := bind_return.mp done
    obtain ⟨member, fair, aside, -, call⟩ := allowed
    have before := follows.serves i
    have outcome := before.sound.outcome fair.1 fair.silent called
    refine follows.pipe rfl room (before.writer member fair.1 outcome aside
      (fun same => absurd same call) ?_)
    rw [outcome.deleted call, before.stays member]
  | peer i a =>
    obtain ⟨core, done, rfl⟩ := bind_return.mp taken
    obtain ⟨t, called, rfl⟩ := bind_return.mp done
    have before := follows.serves i
    have outcome := before.sound.outcome allowed.1 allowed.silent called
    exact follows.pipe rfl room (before.reader allowed.1 outcome)

end

end Follows

instance (s : Xsub ι) (a : Action ι) : Decidable (s.Subscribing a) := by
  dsimp only [Subscribing]
  cases s.step a <;> induction a using Action.casesOn <;> infer_instance

instance (s : Xsub ι) (a : Action ι) : Decidable (s.Distinct a) := by
  induction a using Action.casesOn with
  | send msg => dsimp only [Distinct]; cases request msg <;> infer_instance
  | _ => dsimp only [Distinct]; infer_instance

/-- In every run in which pipes are attached between messages, no count wraps around and no
    cancellation looks like a subscription, publishers hold what is subscribed to. -/
theorem distinct_upstream_follows (onlyFirstSubscribe immediate : Bool) (hwms : ι → End → Int)
    {s : Xsub ι} (reached : Reaches step Distinct (start onlyFirstSubscribe immediate hwms) s) :
    s.Upstream := by
  have follows : s.Follows := reached.invariant (.start onlyFirstSubscribe immediate hwms)
    fun _ _ _ follows distinct taken => follows.step distinct taken
  exact follows.upstream

theorem distinct_upstream_follows_hiccup :
    ∃ s : Xsub (Fin 1), Reaches step Distinct (start false false fun _ _ => 0) s ∧
      ((s.core.pair 0).written .first).map (·.data) = [[65], [66]] ∧ s.Upstream :=
  exists_run_and
    [.attach 0 true, .send (.initSubscribe [65]) true, .send { data := [1, 65] } true,
      .send { data := [0, 65] } true, .peer 0 .hiccup, .deliver 0 true,
      .send (.initSubscribe [66]) true]
    (by decide +kernel) fun _ reached _ => distinct_upstream_follows _ _ _ reached

/-- The publisher at the other end does not hold a topic that is subscribed to. -/
def Misses (s : Xsub ι) (i : ι) (topic : List UInt8) : Prop :=
  (i ∈ s.core.dist.pipes.items ∧ ((s.core.pair i).pipe .first).state = .active) ∧
    s.subscriptions.find topic ≠ 0 ∧
    (Xpub.replay i ((s.core.pair i).written .first)).toOption.any
      (fun x => decide (i ∉ x.subscriptions.subscribers topic)) = true
  deriving Decidable

theorem Misses.not_upstream {s : Xsub ι} {i : ι} {topic : List UInt8} (misses : s.Misses i topic) :
    ¬ s.Upstream := by
  intro upstream
  obtain ⟨⟨member, active⟩, counted, missing⟩ := misses
  obtain ⟨x, done, members⟩ := upstream i member active
  simp only [done, Except.toOption, Option.any_some, decide_eq_true_eq] at missing
  exact missing ((members topic).mpr counted)

/-- A topic that begins with the byte 1 is cancelled: the subscriber takes that for a subscription
    to the rest of it. And a pipe that is attached between two frames of subscriptions does not get
    the second. -/
theorem cancel_taken_for_subscription :
    (∃ s : Xsub (Fin 1), Reaches step Subscribing (start false false fun _ _ => 0) s ∧
      (s.core.pair 0).written .first = [.initSubscribe [1, 97], .initCancel [1, 97]] ∧
      s.Misses 0 [97] ∧ s.Misses 0 [1, 97] ∧ ¬ s.Upstream) ∧
    ∃ s : Xsub (Fin 2), Reaches step Subscribing (start false false fun _ _ => 0) s ∧
      (s.core.pair 0).written .first =
        [{ flags := MsgFlag.more, data := [1, 65] }, { data := [1, 66] }] ∧
      (s.core.pair 1).written .first = [.initSubscribe [65]] ∧ s.Misses 1 [66] ∧
      ¬ s.Upstream := by
  constructor
  · exact exists_run_and₃
      [.attach 0 true, .send (.initSubscribe [1, 97]) true, .send (.initCancel [1, 97]) true]
      (by decide +kernel) fun _ _ _ misses _ => misses.not_upstream
  · exact exists_run_and₃
      [.attach 0 true, .send { flags := MsgFlag.more, data := [1, 65] } true, .attach 1 true,
        .send { data := [1, 66] } true]
      (by decide +kernel) fun _ _ _ _ misses => misses.not_upstream

end Xsub

end Zmq
