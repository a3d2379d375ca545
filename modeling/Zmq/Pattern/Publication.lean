import Zmq.Pattern.Lb
import Zmq.Pattern.Xpub

/-! # A message goes to its subscribers

The pipes of a message are those that held a fitting subscription, and could be written to, when
its first frame was sent. What is subscribed to, attached or written to in the middle of the
message makes no difference to it.
-/

namespace Zmq

open Lib Balancer

namespace Xpub

variable {ι : Type} [LinearOrder ι] {toAll : Bool}

/-- The socket stays in default mode, attaches a pipe once and reads and writes through the
    functions above. -/
def Orderly (s : Xpub ι) : Action ι → Prop
  | .attach pipe _ _ => ((s.pair pipe).pipe .first).deleted = false
  | .send .. | .recv => True
  | .setsockopt (.manual _) | .setsockopt (.manualLastValue _) | .setsockopt (.nodrop _) => False
  | .setsockopt _ => True
  | .call pipe a => pipe ∈ s.dist.pipes.items ∧ (s.pair pipe).Considerate (.first, a) ∧
      a.aside = true ∧ a ≠ .checkWrite ∧ a ≠ .deliver
  | .deliver pipe _ => pipe ∈ s.dist.pipes.items ∧ (s.pair pipe).mailbox .first ≠ []
  | .peer pipe a => (s.pair pipe).Considerate (.second, a)

instance (s : Xpub ι) (a : Action ι) : Decidable (s.Orderly a) := by
  induction a using Action.casesOn with
  | setsockopt e =>
    induction e using XpubOption.casesOn <;> dsimp only [Orderly] <;> infer_instance
  | _ => dsimp only [Orderly]; infer_instance

/-! ## The pipes -/

structure Ready (d : Dist ι) (i : ι) (t : Pair) : Prop where
  sound : t.Sound
  free : t.LockFree
  stays : i ∈ d.pipes.items → (t.pipe .first).deleted = false
  fresh : i ∉ d.pipes.items → (t.pipe .first).deleted = false → (t.pipe .first).outActive = true
  awake : d.isEligible i → (t.pipe .first).state = .active → (t.pipe .first).outActive = true

namespace Ready

variable {d d' : Dist ι} {i : ι} {t t' : Pair} {a : Zmq.Action} {msg : Msg} {b : Bool}

section

omit [LinearOrder ι]

theorem attached (hwms : End → Int) :
    Ready (.empty : Dist ι) i (.attached hwms fun _ => false) where
  sound := Pair.attached_sound _ _
  free := Pair.attached_lockFree _
  stays := nofun
  fresh _ _ := rfl
  awake eligible := absurd eligible.mem (by simp [Dist.empty, ArrayT.empty])

section

variable (ready : Ready d i t)
include ready

theorem reader (can : t.CanAct (.second, a)) (outcome : t.Outcome .second a t') : Ready d i t' := by
  have same : t'.pipe .first = t.pipe .first := outcome.pipe_peer
  refine ⟨outcome.sound ready.sound can, ready.free.outcome outcome, ?_, ?_, ?_⟩
  · rw [same]
    exact ready.stays
  · rw [same]
    exact ready.fresh
  · rw [same]
    exact ready.awake

theorem writer (member : i ∈ d.pipes.items) (can : t.CanAct (.first, a))
    (outcome : t.Outcome .first a t') (aside : a.aside = true) (other : a ≠ .checkWrite)
    (stays : (t'.pipe .first).deleted = false) : Ready d i t' where
  sound := outcome.sound ready.sound can
  free := ready.free.outcome outcome
  stays _ := stays
  fresh gone := absurd member gone
  awake eligible active :=
    outcome.outActive aside other active (ready.awake eligible (outcome.active active))

theorem move (mem : i ∈ d'.pipes.items ↔ i ∈ d.pipes.items)
    (eligible : d'.isEligible i → d.isEligible i) : Ready d' i t where
  sound := ready.sound
  free := ready.free
  stays member := ready.stays (mem.mp member)
  fresh gone := ready.fresh fun member => gone (mem.mpr member)
  awake there := ready.awake (eligible there)

theorem become (member : i ∈ d'.pipes.items)
    (stays : (t.pipe .first).deleted = false)
    (live : (t.pipe .first).outActive = true) : Ready d' i t where
  sound := ready.sound
  free := ready.free
  stays _ := stays
  fresh gone := absurd member gone
  awake _ _ := live

theorem offered (member : i ∈ d.pipes.items)
    (mem : i ∈ d'.pipes.items ↔ i ∈ d.pipes.items) (tried : t.Offered msg b t')
    (eligible : d'.isEligible i → b = true) : Ready d' i t' := by
  have stays := tried.deleted.trans (ready.stays member)
  refine ⟨tried.sound ready.sound, tried.lockFree ready.free, fun _ => stays,
    fun gone => absurd (mem.mpr member) gone, fun there _ => ?_⟩
  obtain rfl := eligible there
  exact tried.outActive

end

end

end Ready

/-! ## The invariant -/

structure Inv (s : Xpub ι) : Prop where
  manual : s.options.manual = false
  lossy : s.options.lossy = true
  ok : s.dist.Ok
  more : s.dist.more = s.moreSend
  trie : s.subscriptions.Ok
  held : ∀ p t, (p, t) ∈ s.held ↔ p ∈ s.subscriptions.subscribers t
  members : ∀ p t, (p, t) ∈ s.held → p ∈ s.dist.pipes.items
  ready : ∀ i, Ready s.dist i (s.pair i)

/-- The message in progress, if there is one, goes on to the same pipes, but for those that were
    closed. -/
structure Keeps (s s' : Xpub ι) : Prop where
  more : s'.moreSend = s.moreSend
  invertMatching : s'.options.invertMatching = s.options.invertMatching
  active : ∀ i, ((s'.pair i).pipe .first).state = .active →
    ((s.pair i).pipe .first).state = .active
  matching : s.moreSend = true → ∀ i, s'.dist.isMatching i → s.dist.isMatching i
  lost : s.moreSend = true → ∀ i, s.dist.isMatching i → ¬ s'.dist.isMatching i →
    ((s'.pair i).pipe .first).state ≠ .active

variable {s s' s'' : Xpub ι} {i p : ι} {t v : Pair} {d : Dist ι} {msg : Msg} {lock : Bool}
  {topic : List UInt8}

section

omit [LinearOrder ι]

theorem Keeps.trans (first : s.Keeps s') (second : s'.Keeps s'') : s.Keeps s'' where
  more := second.more.trans first.more
  invertMatching := second.invertMatching.trans first.invertMatching
  active i active := first.active i (second.active i active)
  matching midway i there :=
    first.matching midway i (second.matching (first.more.trans midway) i there)
  lost midway i before after := by
    by_cases between : s'.dist.isMatching i
    · exact second.lost (first.more.trans midway) i between after
    · exact fun active => first.lost midway i before between (second.active i active)

def sending (s : Xpub ι) := (s.dist, s.moreSend, s.options.invertMatching)

theorem Keeps.of_dist (same : s'.sending = s.sending)
    (active : ∀ i, ((s'.pair i).pipe .first).state = .active →
      ((s.pair i).pipe .first).state = .active) : s.Keeps s' := by
  simp only [sending, Prod.mk.injEq] at same
  obtain ⟨dist, more, invertMatching⟩ := same
  exact ⟨more, invertMatching, active, fun _ _ there => dist ▸ there,
    fun _ _ before after => absurd (dist ▸ before) after⟩

theorem Keeps.of_pair (same : s'.sending = s.sending) (pair : s'.pair = s.pair) : s.Keeps s' :=
  .of_dist same (pair ▸ fun _ => id)

theorem sendUnsubscription_frame (topics : List (List UInt8)) (s : Xpub ι)
    (manual : s.options.manual = false) : ∃ data flags origins,
      topics.foldl sendUnsubscription s =
        { s with pendingData := data, pendingFlags := flags, origins := origins } := by
  induction topics generalizing s with
  | nil => exact ⟨_, _, _, rfl⟩
  | cons topic rest ih =>
    rw [List.foldl_cons]
    cases pub : s.options.pub with
    | true =>
      have same : s.sendUnsubscription topic = s := by simp [sendUnsubscription, pub]
      rw [same]
      exact ih s manual
    | false =>
      have pushed : s.sendUnsubscription topic = s.push (0 :: topic) 0 .gone := by
        simp [sendUnsubscription, push, pub, manual]
      rw [pushed]
      exact ih (s.push (0 :: topic) 0 .gone) manual

end

namespace Inv

omit [LinearOrder ι] in
theorem start {options : XpubOptions} (manual : options.manual = false)
    (lossy : options.lossy = true) (hwms : ι → End → Int) : (start options hwms).Inv where
  manual := manual
  lossy := lossy
  ok := .empty
  more := rfl
  trie := .empty
  held p t := by simp [Xpub.start]
  members := nofun
  ready _ := .attached _

section

variable (inv : s.Inv)
include inv

theorem pipe (ready : Ready s.dist i t)
    (active : (t.pipe .first).state = .active → ((s.pair i).pipe .first).state = .active) :
    Inv { s with pair := Function.update s.pair i t } ∧
      s.Keeps { s with pair := Function.update s.pair i t } := by
  refine ⟨{ inv with ready := ?_ }, .of_dist rfl ?_⟩
  · exact (Function.forall_update_iff s.pair fun j t => Ready s.dist j t).mpr
      ⟨ready, fun j _ => inv.ready j⟩
  · exact (Function.forall_update_iff s.pair fun j t =>
      (t.pipe .first).state = .active → ((s.pair j).pipe .first).state = .active).mpr
        ⟨active, fun j _ => id⟩

theorem call {a : Zmq.Action} (member : i ∈ s.dist.pipes.items)
    (can : (s.pair i).CanAct (.first, a)) (outcome : (s.pair i).Outcome .first a t)
    (aside : a.aside = true) (other : a ≠ .checkWrite) (call : a ≠ .deliver) :
    Inv { s with pair := Function.update s.pair i t } ∧
      s.Keeps { s with pair := Function.update s.pair i t } := by
  refine inv.pipe ((inv.ready i).writer member can outcome aside other ?_) outcome.active
  rw [outcome.deleted call, (inv.ready i).stays member]

theorem receive (member : i ∈ s.dist.pipes.items)
    (done : s.receive i msg = .ok s') : s'.Inv ∧ s.Keeps s' ∧ s'.dist = s.dist := by
  obtain ⟨s₁, received, heard, -⟩ := receive_heard inv.manual inv.trie i msg
  obtain rfl : s₁ = s' := by simpa [received] using done
  refine ⟨⟨by rw [heard.options, inv.manual], by rw [heard.options, inv.lossy],
    heard.dist ▸ inv.ok, by rw [heard.dist, heard.moreSend, inv.more], heard.ok, fun p t => ?_,
    fun p t there => ?_, ?_⟩, .of_dist (by simp only [sending, heard.dist, heard.moreSend, heard.options]) ?_,
    heard.dist⟩
  · rw [heard.held, heard.members]
    simp only [inv.held]
  · rw [heard.dist]
    rw [heard.held] at there
    by_cases same : p = i
    · rwa [same]
    · rw [if_neg same] at there
      exact inv.members p t there
  · rw [heard.dist, heard.pair]
    exact inv.ready
  · rw [heard.pair]
    exact fun _ => id

theorem read {n : Nat} (member : i ∈ s.dist.pipes.items)
    (done : readFrom i n s = .ok s') : s'.Inv ∧ s.Keeps s' := by
  induction n generalizing s with
  | zero =>
    cases done
    exact ⟨inv, .of_pair rfl rfl⟩
  | succ n ih =>
    obtain ⟨⟨r, t⟩, taken, done⟩ := bind_ok.mp done
    have stays := (inv.ready i).stays member
    have reading := (inv.ready i).sound.reading stays taken
    obtain ⟨next, kept⟩ := inv.call (a := .read) member stays (.read reading) rfl nofun nofun
    cases r with
    | none =>
      cases done
      exact ⟨next, kept⟩
    | some m =>
      obtain ⟨s₁, received, done⟩ := bind_ok.mp done
      obtain ⟨next', kept', dist⟩ := next.receive member received
      obtain ⟨last, kept''⟩ := ih next' (dist ▸ member) done
      exact ⟨last, (kept.trans kept').trans kept''⟩

theorem attached (stays : ((s.pair i).pipe .first).deleted = false)
    (done : s.dist.attach i = .ok d) : Inv { s with dist := d } ∧ s.Keeps { s with dist := d } ∧
      i ∈ d.pipes.items := by
  obtain ⟨new, becomes⟩ := Dist.attach_becomes inv.ok done
  have member : i ∈ d.pipes.items := (becomes.mem i).mpr (.inr rfl)
  refine ⟨⟨inv.manual, inv.lossy, becomes.ok, becomes.more.trans inv.more, inv.trie, inv.held,
    fun p t there => (becomes.mem p).mpr (.inl (inv.members p t there)), fun j => ?_⟩,
    ⟨rfl, rfl, fun _ => id, fun _ j => (becomes.isMatching j).mp,
      fun _ j before after => absurd ((becomes.isMatching j).mpr before) after⟩, member⟩
  by_cases same : j = i
  · rw [same]
    exact (inv.ready i).become member stays ((inv.ready i).fresh new stays)
  · refine (inv.ready j).move ?_ fun eligible => ?_
    · rw [becomes.mem, or_iff_left same]
    · exact ((becomes.isEligible j).mp eligible).resolve_right same

theorem subscribeToAll (member : i ∈ s.dist.pipes.items)
    (done : s.subscribeToAll i toAll = .ok s') :
    s'.Inv ∧ s.Keeps s' ∧ s'.dist = s.dist := by
  unfold Xpub.subscribeToAll at done
  split at done
  · obtain ⟨trie, added, ok, members⟩ := Mtrie.add_spec inv.trie i []
    rw [added, ok_bind] at done
    cases done
    refine ⟨{ inv with trie := ok, held := fun p t => ?_, members := fun p t there => ?_ },
      .of_pair rfl rfl, rfl⟩
    · rw [members, List.mem_cons, inv.held, Prod.mk.injEq]
      tauto
    · rcases List.mem_cons.mp there with new | old
      · cases new
        exact member
      · exact inv.members p t old
  · cases done
    exact ⟨inv, .of_pair rfl rfl, rfl⟩

theorem welcome (member : i ∈ s.dist.pipes.items)
    (done : s.welcome i lock = .ok s') : s'.Inv ∧ s.Keeps s' ∧ s'.dist = s.dist := by
  unfold Xpub.welcome at done
  split at done
  · cases done
    exact ⟨inv, .of_pair rfl rfl, rfl⟩
  · obtain ⟨⟨ok, t⟩, ends, done⟩ := bind_ok.mp done
    have ready := inv.ready i
    have stays := ready.stays member
    have writing := ready.sound.writing stays ends
    cases ok with
    | false => cases done
    | true =>
      obtain ⟨v, flushed, rfl⟩ := bind_return.mp done
      have offered : (s.pair i).Offered (.initSize s.options.welcomeMsg) true v :=
        .last writing (by simp [Msg.more, Msg.initSize]) ((writing.sound ready.sound).flushing flushed)
      obtain ⟨next, kept⟩ := inv.pipe (ready.offered member Iff.rfl offered fun _ => rfl)
        fun active => (offered.written ready.free).1 ▸ active
      exact ⟨next, kept, rfl⟩

theorem setNodelay (stays : ((s.pair i).pipe .first).deleted = false) :
    (s.setNodelay i).Inv ∧ s.Keeps (s.setNodelay i) ∧
      (((s.setNodelay i).pair i).pipe .first).deleted = false := by
  unfold Xpub.setNodelay
  split
  · have outcome : (s.pair i).Outcome .first .setNodelay _ := .setNodelay
    have ready := inv.ready i
    obtain ⟨next, kept⟩ := inv.pipe (t := (s.pair i).setPipe .first
        { (s.pair i).pipe .first with delay := false })
      ⟨outcome.sound ready.sound stays, ready.free.outcome outcome, by simpa using ready.stays,
        by simpa using ready.fresh, by simpa using ready.awake⟩ outcome.active
    exact ⟨next, kept, by simpa using stays⟩
  · exact ⟨inv, .of_pair rfl rfl, stays⟩

theorem attach (stays : ((s.pair i).pipe .first).deleted = false)
    (done : s.xattachPipe i toAll lock = .ok s') : s'.Inv ∧ s.Keeps s' := by
  obtain ⟨s₃, entered, last⟩ := bind_ok.mp done
  obtain ⟨d, joined, entered⟩ := bind_ok.mp entered
  obtain ⟨s₂, subscribed, welcomed⟩ := bind_ok.mp entered
  obtain ⟨inv₀, kept₀, stays₀⟩ := inv.setNodelay stays
  obtain ⟨inv₁, kept₁, member⟩ := inv₀.attached stays₀ joined
  obtain ⟨inv₂, kept₂, dist⟩ := inv₁.subscribeToAll member subscribed
  have member₂ : i ∈ s₂.dist.pipes.items := dist ▸ member
  obtain ⟨inv₃, kept₃, dist₃⟩ := inv₂.welcome member₂ welcomed
  obtain ⟨inv₄, kept₄⟩ := inv₃.read (dist₃ ▸ member₂) last
  exact ⟨inv₄, (((kept₀.trans kept₁).trans kept₂).trans kept₃).trans kept₄⟩

theorem terminated (member : i ∈ s.dist.pipes.items) (sound : t.Sound) (free : t.LockFree)
    (deleted : (t.pipe .first).deleted = true) (closed : (t.pipe .first).state ≠ .active)
    (done : xpipeTerminated { s with pair := Function.update s.pair i t } i = .ok s') :
    s'.Inv ∧ s.Keeps s' := by
  obtain ⟨topics, trie, removed, ok, members, -, -⟩ :=
    Mtrie.rmValue_spec inv.trie i (!s.options.verboseUnsubs)
  unfold xpipeTerminated at done
  simp only [inv.manual, removed, ok_bind] at done
  obtain ⟨data, flags, origins, same⟩ := sendUnsubscription_frame topics
    { s with
      pair := Function.update s.pair i t
      subscriptions := trie
      held := s.held.filter (·.1 ≠ i) } inv.manual
  rw [same] at done
  obtain ⟨d, gone, rfl⟩ := bind_return.mp done
  have becomes := Dist.pipeTerminated_becomes inv.ok member gone
  refine ⟨⟨inv.manual, inv.lossy, becomes.ok, becomes.more.trans inv.more, ok, fun p t => ?_,
    fun p t there => ?_, ?_⟩, ⟨rfl, rfl, ?_, fun _ j there => ((becomes.isMatching j).mp there).1,
      fun _ j before after => ?_⟩⟩
  · rw [members, List.mem_filter, inv.held]
    simp
  · obtain ⟨there, other⟩ := List.mem_filter.mp there
    exact (becomes.mem p).mpr ⟨inv.members p t there, by simpa using other⟩
  · refine (Function.forall_update_iff s.pair fun j t => Ready d j t).mpr ⟨?_, fun j other => ?_⟩
    · refine ⟨sound, free, fun still => ?_, fun _ stays => ?_, fun eligible => ?_⟩
      · exact absurd rfl ((becomes.mem i).mp still).2
      · rw [deleted] at stays
        cases stays
      · exact absurd rfl ((becomes.isEligible i).mp eligible).2
    · refine (inv.ready j).move ?_ fun eligible => ((becomes.isEligible j).mp eligible).1
      rw [becomes.mem, and_iff_left other]
  · exact (Function.forall_update_iff s.pair fun j t =>
      (t.pipe .first).state = .active → ((s.pair j).pipe .first).state = .active).mpr
        ⟨fun active => absurd active closed, fun j _ => id⟩
  · have same : j = i := by
      by_contra other
      exact after ((becomes.isMatching j).mpr ⟨before, other⟩)
    simpa [same] using closed

theorem activated (member : i ∈ s.dist.pipes.items) (outside : ¬ s.dist.isEligible i)
    (live : ((s.pair i).pipe .first).outActive = true) (done : s.dist.activated i = .ok d) :
    Inv { s with dist := d } ∧ s.Keeps { s with dist := d } := by
  have becomes := Dist.activated_becomes inv.ok member outside done
  refine ⟨⟨inv.manual, inv.lossy, becomes.ok, becomes.more.trans inv.more, inv.trie, inv.held,
    fun p t there => (becomes.mem p).mpr (inv.members p t there), fun j => ?_⟩,
    ⟨rfl, rfl, fun _ => id, fun _ j => (becomes.isMatching j).mp,
      fun _ j before after => absurd ((becomes.isMatching j).mpr before) after⟩⟩
  by_cases same : j = i
  · rw [same]
    exact (inv.ready i).become ((becomes.mem i).mpr member) ((inv.ready i).stays member) live
  · exact (inv.ready j).move (becomes.mem j) fun eligible =>
      ((becomes.isEligible j).mp eligible).resolve_right same

theorem deliver (member : i ∈ s.dist.pipes.items) (waiting : (s.pair i).mailbox .first ≠ [])
    (done : s.step (.deliver i lock) = .ok s') : s'.Inv ∧ s.Keeps s' := by
  obtain ⟨⟨t, event⟩, delivered, reacts⟩ := bind_ok.mp done
  have ready := inv.ready i
  have stays := ready.stays member
  obtain ⟨c, rest, at_head, receiving, outcome⟩ := ready.sound.receiving waiting delivered
  have sound := outcome.sound ready.sound waiting
  have free := ready.free.outcome outcome
  have next (stays : (t.pipe .first).deleted = false) :=
    inv.pipe (ready.writer (a := .deliver) member waiting outcome rfl (by simp) stays)
      outcome.active
  cases receiving with
  | writeWoken asleep active =>
    have outside : ¬ s.dist.isEligible i := by
      intro eligible
      rw [Pair.setMailbox_pipe, ready.awake eligible active] at asleep
      cases asleep
    obtain ⟨d, woken, rfl⟩ := bind_return.mp reacts
    obtain ⟨inv₁, kept₁⟩ := next (by simpa using stays)
    obtain ⟨inv₂, kept₂⟩ := inv₁.activated member outside (by simp) woken
    exact ⟨inv₂, kept₁.trans kept₂⟩
  | leaves state | answersAndLeaves state =>
    have closed : ((s.pair i).pipe .first).state ≠ .active := by
      intro active
      simp [active] at state
    exact inv.terminated member sound free (by simp) (fun active => closed (outcome.active active))
      reacts
  | readWoken =>
    obtain ⟨inv₁, kept₁⟩ := next (by simpa using stays)
    obtain ⟨inv₂, kept₂⟩ := inv₁.read member reacts
    exact ⟨inv₂, kept₁.trans kept₂⟩
  | readIgnored | writeNoted | published | limited | waits | answers | crosses =>
    cases reacts
    exact next (by simpa [Pipe.setHwms] using stays)
  | replaced here found =>
    obtain ⟨inv₁, kept₁⟩ := next (by simpa using stays)
    by_cases active : (((s.pair i).setMailbox .first rest).pipe .first).state = .active
    · simp only [if_pos active, react] at reacts
      split at reacts
      · obtain ⟨v, ended, rfl⟩ := bind_return.mp reacts
        have stays' := (inv₁.ready i).stays member
        have outcome' := (inv₁.ready i).sound.outcome (a := .terminate false lock) stays'
          (by rintro ⟨⟩) ended
        obtain ⟨inv₂, kept₂⟩ := inv₁.call (a := .terminate false lock) member stays' outcome' rfl
          (by simp) (by simp)
        exact ⟨inv₂, kept₁.trans kept₂⟩
      · cases reacts
    · simp only [if_neg active] at reacts
      cases reacts
      exact ⟨inv₁, kept₁⟩

end

omit [LinearOrder ι] in
theorem recv (inv : s.Inv) : s.xrecv.2.Inv ∧ s.Keeps s.xrecv.2 := by
  unfold xrecv
  split
  · exact ⟨inv, .of_pair rfl rfl⟩
  · split
    · exact ⟨inv, .of_pair rfl rfl⟩
    · simp only [inv.manual, Bool.false_eq_true, if_false]
      exact ⟨{ inv with }, .of_pair rfl rfl⟩

theorem setsockopt {option : XpubOption} (inv : s.Inv) (stays : s.Orderly (.setsockopt option))
    (done : s.step (.setsockopt option) = .ok s') : s'.Inv ∧ s.Keeps s' := by
  obtain ⟨⟨b, s₁⟩, set, rfl⟩ := map_ok.mp done
  cases option with
  | verbose on | verboser on | onlyFirstSubscribe on | welcomeMsg data =>
    cases set
    exact ⟨{ inv with }, .of_pair rfl rfl⟩
  | manualLastValue on | manual on | nodrop on => cases stays
  | subscribe topic | unsubscribe topic =>
    simp only [xsetsockopt, inv.manual] at set
    cases set
    exact ⟨inv, .of_pair rfl rfl⟩

theorem other {a : Action ι} (inv : s.Inv) (orderly : s.Orderly a)
    (notSend : ∀ msg lock, a ≠ .send msg lock) (taken : s.step a = .ok s') :
    s'.Inv ∧ s.Keeps s' := by
  cases a with
  | attach i toAll lock => exact inv.attach orderly taken
  | send msg lock => exact absurd rfl (notSend msg lock)
  | recv =>
    cases taken
    exact inv.recv
  | setsockopt option => exact inv.setsockopt orderly taken
  | call i a =>
    obtain ⟨t, called, rfl⟩ := bind_return.mp taken
    obtain ⟨member, fair, aside, other, call⟩ := orderly
    have outcome := (inv.ready i).sound.outcome fair.1 fair.silent called
    exact inv.call member fair.1 outcome aside other call
  | deliver i lock => exact inv.deliver orderly.1 orderly.2 taken
  | peer i a =>
    obtain ⟨t, called, rfl⟩ := bind_return.mp taken
    have outcome := (inv.ready i).sound.outcome orderly.1 orderly.silent called
    have untouched : t.pipe .first = (s.pair i).pipe .first := outcome.pipe_peer
    exact inv.pipe ((inv.ready i).reader orderly.1 outcome) (by rw [untouched]; exact id)

end Inv

/-! ## The pipes of a message -/

def Fits (s : Xpub ι) (msg : Msg) (i : ι) : Prop := ∃ topic, (i, topic) ∈ s.held ∧ topic <+: msg.data

/-- A message with this first frame is for the pipe. -/
def Chooses (s : Xpub ι) (msg : Msg) (i : ι) : Prop :=
  s.dist.isEligible i ∧ (s.Fits msg i ↔ s.options.invertMatching = false)

theorem markAll_becomes {d d' : Dist ι} {pipes : List ι} (ok : d.Ok) (idle : d.more = false)
    (members : ∀ p ∈ pipes, p ∈ d.pipes.items) (done : markAll pipes d = .ok d') :
    d.Becomes d' (fun r => d.isMatching r ∨ d.isEligible r ∧ r ∈ pipes) d.isActive d.isEligible
      (· ∈ d.pipes.items) := by
  induction pipes generalizing d with
  | nil =>
    cases done
    exact ⟨ok, rfl, by simp, fun _ => Iff.rfl, fun _ => Iff.rfl, fun _ => Iff.rfl⟩
  | cons p rest ih =>
    obtain ⟨d₁, marked, done⟩ := bind_ok.mp done
    have first := Dist.matchPipe_becomes ok idle (members p List.mem_cons_self) marked
    have later := ih first.ok (first.more.trans idle)
      (fun q there => (first.mem q).mpr (members q (List.mem_cons_of_mem p there))) done
    refine ⟨later.ok, later.more.trans first.more, fun r => ?_, fun r => ?_, fun r => ?_,
      fun r => ?_⟩
    · rw [later.isMatching, first.isMatching, first.isEligible, List.mem_cons]
      tauto
    · rw [later.isActive, first.isActive]
    · rw [later.isEligible, first.isEligible]
    · rw [later.mem, first.mem]

theorem invert_becomes {d' : Dist ι} (ok : d.Ok) (idle : d.more = false)
    (done : s.invert d = .ok d') :
    d.Becomes d' (fun r => if s.options.invertMatching then d.isEligible r ∧ ¬ d.isMatching r
      else d.isMatching r) d.isActive d.isEligible (· ∈ d.pipes.items) := by
  unfold invert at done
  cases invert : s.options.invertMatching with
  | true =>
    rw [if_pos invert] at done
    simpa using Dist.reverseMatch_becomes ok idle done
  | false =>
    rw [if_neg (by simp [invert])] at done
    cases done
    exact ⟨ok, rfl, by simp, fun _ => Iff.rfl, fun _ => Iff.rfl, fun _ => Iff.rfl⟩

theorem select_becomes (ok : s.dist.Ok) (idle : s.dist.more = false)
    (members : ∀ p ∈ s.subscriptions.matchAll msg.data, p ∈ s.dist.pipes.items)
    (done : s.select msg = .ok s') :
    ∃ d, s' = { s with dist := d, lastPipe := if s.forLast then none else s.lastPipe } ∧
      s.dist.Becomes d (fun i => s.dist.isEligible i ∧ ((i ∈ s.subscriptions.matchAll msg.data ∧
        (s.forLast = true → some i = s.lastPipe)) ↔ s.options.invertMatching = false))
      s.dist.isActive s.dist.isEligible (· ∈ s.dist.pipes.items) := by
  obtain ⟨d₁, marked, done⟩ := bind_ok.mp done
  obtain ⟨d₂, inverted, rfl⟩ := bind_return.mp done
  have chosen (i : ι) : i ∈ s.candidates msg ↔
      i ∈ s.subscriptions.matchAll msg.data ∧ (s.forLast = true → some i = s.lastPipe) := by
    unfold candidates
    split <;> simp_all
  have first := markAll_becomes ok.unmatch idle (fun p there => members p ((chosen p).mp there).1)
    marked
  have second := invert_becomes first.ok (first.more.trans idle) inverted
  refine ⟨d₂, rfl, second.ok, second.more.trans first.more, fun i => ?_,
    fun i => (second.isActive i).trans (first.isActive i),
    fun i => (second.isEligible i).trans (first.isEligible i),
    fun i => (second.mem i).trans (first.mem i)⟩
  have none : ¬ s.dist.unmatch.isMatching i := ArrayT.not_before_zero
  have same : s.dist.unmatch.isEligible i ↔ s.dist.isEligible i := Iff.rfl
  rw [second.isMatching, first.isMatching, first.isEligible, same, chosen]
  cases s.options.invertMatching with
  | true =>
    simp only [if_true]
    tauto
  | false => simp [none]

namespace Inv

theorem mem_matchAll (inv : s.Inv) : i ∈ s.subscriptions.matchAll msg.data ↔ s.Fits msg i := by
  rw [Mtrie.mem_matchAll]
  simp only [Fits, inv.held]
  tauto

theorem select (inv : s.Inv) (idle : s.moreSend = false) (done : s.select msg = .ok s') :
    s'.Inv ∧ s'.pair = s.pair ∧ ∀ i, s'.dist.isMatching i ↔ s.Chooses msg i := by
  have members (p : ι) (there : p ∈ s.subscriptions.matchAll msg.data) :
      p ∈ s.dist.pipes.items := by
    obtain ⟨topic, held, -⟩ := inv.mem_matchAll.mp there
    exact inv.members p topic held
  have plain : s.forLast = false := by simp [forLast, inv.manual]
  obtain ⟨d, rfl, becomes⟩ := select_becomes inv.ok (inv.more.trans idle) members done
  refine ⟨⟨inv.manual, inv.lossy, becomes.ok, becomes.more.trans inv.more, inv.trie, inv.held,
    fun p t there => (becomes.mem p).mpr (inv.members p t there),
    fun j => (inv.ready j).move (becomes.mem j) (becomes.isEligible j).mp⟩, rfl,
    fun i => (becomes.isMatching i).trans ?_⟩
  simp [Chooses, inv.mem_matchAll, plain]

theorem transmit {b : Bool} (inv : s.Inv) (done : s.transmit msg lock = .ok (b, s')) :
    s'.Inv ∧ s'.moreSend = msg.more ∧ ∀ i,
      (s.dist.isMatching i → ∃ taken, (s.pair i).Offered msg taken (s'.pair i) ∧
        (msg.more = true → (s'.dist.isMatching i ↔ taken = true))) ∧
      (¬ s.dist.isMatching i → s'.pair i = s.pair i ∧
        (msg.more = true → ¬ s'.dist.isMatching i)) := by
  unfold Xpub.transmit at done
  simp only [inv.lossy] at done
  obtain ⟨⟨d', pair⟩, sent, result⟩ := bind_ok.mp done
  obtain ⟨⟨d, pair'⟩, distributed, ⟨⟩⟩ := bind_ok.mp sent
  cases result
  have sent := Dist.distribute_distributed inv.ok (fun i => (inv.ready i).sound)
    (fun i member => (inv.ready i).stays member) distributed
  have ok := sent.ok.sent msg.more
  have ready (i : ι) : Ready d i (pair i) := by
    by_cases matching : s.dist.isMatching i
    · obtain ⟨taken, offered, -, -, eligible⟩ := sent.tried i matching
      exact (inv.ready i).offered matching.mem (sent.mem i) offered eligible.mp
    · obtain ⟨same, -, -, eligible⟩ := sent.others i matching
      rw [same]
      exact (inv.ready i).move (sent.mem i) eligible.mp
  cases more : msg.more with
  | true =>
    simp only [more] at ok ⊢
    refine ⟨⟨inv.manual, inv.lossy, ok, rfl, inv.trie, inv.held, ?_, ?_⟩, trivial, ?_⟩
    · exact fun p t there => (sent.mem p).mpr (inv.members p t there)
    · exact fun i => (ready i).move Iff.rfl id
    · refine fun i => ⟨fun matching => ?_, fun skipped => ?_⟩
      · obtain ⟨taken, offered, still, -, -⟩ := sent.tried i matching
        exact ⟨taken, offered, fun _ => still⟩
      · obtain ⟨same, still, -, -⟩ := sent.others i skipped
        exact ⟨same, fun _ there => skipped (still.mp there)⟩
  | false =>
    simp only [more] at ok ⊢
    refine ⟨⟨inv.manual, inv.lossy, ok.unmatch, rfl, inv.trie, inv.held, ?_, ?_⟩, trivial, ?_⟩
    · exact fun p t there => (sent.mem p).mpr (inv.members p t there)
    · exact fun i => (ready i).move Iff.rfl id
    · refine fun i => ⟨fun matching => ?_, fun skipped => ?_⟩
      · obtain ⟨taken, offered, -⟩ := sent.tried i matching
        exact ⟨taken, offered, nofun⟩
      · exact ⟨(sent.others i skipped).1, nofun⟩

end Inv

/-! ## A whole message -/

def framesOf (past : List (Xpub ι × Action ι)) : List Msg :=
  past.filterMap fun x =>
    match x.2 with
    | .send msg _ => some msg
    | _ => none

def writes (i : ι) (x : Xpub ι × Action ι) : List Msg :=
  match x.2 with
  | .send msg lock =>
    match x.1.step (.send msg lock) with
    | .ok s => ((s.pair i).written .first).drop ((x.1.pair i).written .first).length
    | .error _ => []
  | _ => []

def writtenBy (past : List (Xpub ι × Action ι)) (i : ι) : List Msg := past.flatMap (writes i)

/-- A pipe that was eligible is neither full nor closed when a frame is sent. -/
def Undisturbed (s₀ : Xpub ι) (i : ι) (s : Xpub ι) (a : Action ι) : Prop :=
  s.Orderly a ∧ match a with
    | .send .. => s₀.dist.isEligible i → ((s.pair i).checkWrite .first).1 = true
    | _ => True

instance (s₀ : Xpub ι) (i : ι) (s : Xpub ι) (a : Action ι) : Decidable (s₀.Undisturbed i s a) := by
  induction a using Action.casesOn <;> dsimp only [Undisturbed] <;> infer_instance

theorem Inv.sends (inv : s.Inv) (taken : s.step (.send msg lock) = .ok s') :
    ∃ s₁ b, s₁.Inv ∧ s₁.pair = s.pair ∧ s₁.transmit msg lock = .ok (b, s') ∧
      (s.moreSend = true → s₁ = s) ∧
      (s.moreSend = false → ∀ i, s₁.dist.isMatching i ↔ s.Chooses msg i) := by
  obtain ⟨⟨b, s₂⟩, sent, rfl⟩ := map_ok.mp taken
  unfold Xpub.xsend at sent
  split at sent
  · rename_i midway
    exact ⟨s, b, inv, rfl, sent, fun _ => rfl, by simp [midway]⟩
  · rename_i boundary
    have idle : s.moreSend = false := by simpa using boundary
    obtain ⟨s₁, selected, sent⟩ := bind_ok.mp sent
    obtain ⟨inv₁, pair, matching⟩ := inv.select idle selected
    exact ⟨s₁, b, inv₁, pair, sent, by simp [idle], fun _ => matching⟩

theorem Inv.xsend (chosen : Prop) (inv : s.Inv)
    (later : s.moreSend = true → (s.dist.isMatching i ↔ chosen))
    (first : s.moreSend = false → (s.Chooses msg i ↔ chosen))
    (room : chosen → ((s.pair i).checkWrite .first).1 = true)
    (taken : s.step (.send msg lock) = .ok s') :
    s'.moreSend = msg.more ∧ (chosen → writes i (s, .send msg lock) = [msg]) ∧
      (¬ chosen → writes i (s, .send msg lock) = []) ∧
      (msg.more = true → (s'.dist.isMatching i ↔ chosen)) := by
  have wrote : writes i (s, .send msg lock) =
      ((s'.pair i).written .first).drop ((s.pair i).written .first).length := by
    simp [writes, taken]
  obtain ⟨s₁, b, inv₁, pair, sent, same, selected⟩ := inv.sends taken
  have matching : s₁.dist.isMatching i ↔ chosen := by
    cases midway : s.moreSend with
    | true =>
      rw [same midway]
      exact later midway
    | false => exact (selected midway i).trans (first midway)
  obtain ⟨-, more, each⟩ := inv₁.transmit sent
  obtain ⟨tried, skipped⟩ := each i
  rw [pair] at tried skipped
  refine ⟨more, fun yes => ?_, fun no => ?_, fun midway => ?_⟩
  · obtain ⟨b, offered, -⟩ := tried (matching.mpr yes)
    obtain rfl := offered.taken (room yes)
    rw [wrote, (offered.written (inv.ready i).free).2.1, List.drop_left]
  · rw [wrote, (skipped fun there => no (matching.mp there)).1, List.drop_length]
  · by_cases yes : chosen
    · obtain ⟨b, offered, still⟩ := tried (matching.mpr yes)
      obtain rfl := offered.taken (room yes)
      simp [still midway, yes]
    · have out := (skipped fun there => yes (matching.mp there)).2 midway
      simp [out, yes]

/-- A message was begun in the state `s₀`, perhaps. While it is not finished, its pipes are those
    that were chosen then. -/
structure Underway (s₀ : Xpub ι) (i : ι) (past : List (Xpub ι × Action ι)) (s : Xpub ι) : Prop where
  inv : s.Inv
  none : past = [] → s = s₀
  some : ∀ first lock, (past.map (·.2)).head? = some (.send first lock) →
    (∀ m ∈ (framesOf past).dropLast, m.more = true) →
      (s₀.Chooses first i → writtenBy past i = framesOf past) ∧
      (¬ s₀.Chooses first i → writtenBy past i = []) ∧
      ((∀ m ∈ framesOf past, m.more = true) → s.moreSend = true ∧
        (s.dist.isMatching i → s₀.Chooses first i) ∧
        (s₀.Chooses first i → ((s.pair i).pipe .first).state = .active → s.dist.isMatching i))

variable {s₀ : Xpub ι} {past : List (Xpub ι × Action ι)} {a : Action ι}

omit [LinearOrder ι] in
theorem framesOf_snoc (past : List (Xpub ι × Action ι)) (s : Xpub ι) (msg : Msg) (lock : Bool) :
    framesOf (past ++ [(s, .send msg lock)]) = framesOf past ++ [msg] := by
  simp [framesOf]

theorem other_silent (past : List (Xpub ι × Action ι)) (s : Xpub ι) (i : ι)
    (notSend : ∀ msg lock, a ≠ .send msg lock) :
    framesOf (past ++ [(s, a)]) = framesOf past ∧
      writtenBy (past ++ [(s, a)]) i = writtenBy past i := by
  cases a with
  | send msg lock => exact absurd rfl (notSend msg lock)
  | _ => simp [framesOf, writtenBy, writes]

namespace Underway

theorem start (inv : s₀.Inv) : s₀.Underway i [] s₀ := ⟨inv, fun _ => rfl, nofun⟩

theorem other (underway : s₀.Underway i past s) (orderly : s.Orderly a)
    (notSend : ∀ msg lock, a ≠ .send msg lock) (taken : s.step a = .ok s') :
    s₀.Underway i (past ++ [(s, a)]) s' := by
  obtain ⟨inv, keeps⟩ := underway.inv.other orderly notSend taken
  obtain ⟨frames, written⟩ := other_silent past s i notSend
  refine ⟨inv, by simp, fun first lock starts begun => ?_⟩
  rw [frames] at begun ⊢
  rw [written]
  have starts' : (past.map (·.2)).head? = Option.some (.send first lock) := by
    cases past with
    | nil => exact absurd (Option.some.inj starts) (notSend first lock)
    | cons x rest => exact starts
  obtain ⟨yes, no, midway⟩ := underway.some first lock starts' begun
  refine ⟨yes, no, fun all => ?_⟩
  obtain ⟨more, only, still⟩ := midway all
  refine ⟨keeps.more.trans more, fun there => only (keeps.matching more i there),
    fun chosen active => ?_⟩
  by_contra lost
  exact keeps.lost more i (still chosen (keeps.active i active)) lost active

theorem send (underway : s₀.Underway i past s) (boundary : s₀.moreSend = false)
    (calm : s₀.Undisturbed i s (.send msg lock)) (taken : s.step (.send msg lock) = .ok s') :
    s₀.Underway i (past ++ [(s, .send msg lock)]) s' := by
  obtain ⟨s₁, b, inv₁, -, sent, -⟩ := underway.inv.sends taken
  refine ⟨(inv₁.transmit sent).1, by simp, fun first lock' starts begun => ?_⟩
  rw [framesOf_snoc] at begun ⊢
  simp only [List.dropLast_concat] at begun
  have written : writtenBy (past ++ [(s, .send msg lock)]) i =
      writtenBy past i ++ writes i (s, .send msg lock) := by simp [writtenBy]
  rw [written]
  cases past with
  | nil =>
    obtain rfl := underway.none rfl
    cases starts
    obtain ⟨more, yes, no, matching⟩ := underway.inv.xsend _ (by simp [boundary])
      (fun _ => Iff.rfl) (fun chosen => calm.2 chosen.1) taken
    refine ⟨fun chosen => by simpa [framesOf, writtenBy] using yes chosen,
      fun skipped => by simpa [writtenBy] using no skipped, fun all => ?_⟩
    have midway : msg.more = true := all msg (by simp)
    exact ⟨more.trans midway, (matching midway).mp, fun chosen _ => (matching midway).mpr chosen⟩
  | cons x rest =>
    obtain ⟨before, none, midway⟩ := underway.some first lock' starts fun m there =>
      begun m (List.mem_of_mem_dropLast there)
    obtain ⟨more, only, still⟩ := midway begun
    have room (chosen : s₀.Chooses first i) := calm.2 chosen.1
    obtain ⟨more', yes, no, matching⟩ := underway.inv.xsend (s₀.Chooses first i)
      (fun _ => ⟨only, fun chosen => still chosen
        ((Pair.checkWrite_fst _ _).mp (room chosen)).1⟩) (by simp [more]) room taken
    refine ⟨fun chosen => by rw [before chosen, yes chosen],
      fun skipped => by rw [none skipped, no skipped]; rfl, fun all => ?_⟩
    have midway : msg.more = true := all msg (by simp)
    exact ⟨more'.trans midway, (matching midway).mp,
      fun chosen _ => (matching midway).mpr chosen⟩

theorem step (underway : s₀.Underway i past s) (boundary : s₀.moreSend = false)
    (calm : s₀.Undisturbed i s a) (taken : s.step a = .ok s') :
    s₀.Underway i (past ++ [(s, a)]) s' := by
  cases a with
  | send msg lock => exact underway.send boundary calm taken
  | _ => exact underway.other calm.1 nofun taken

end Underway

theorem Inv.step (inv : s.Inv) (orderly : s.Orderly a) (taken : s.step a = .ok s') : s'.Inv := by
  cases a with
  | send msg lock =>
    obtain ⟨s₁, b, inv₁, -, sent, -⟩ := inv.sends taken
    exact (inv₁.transmit sent).1
  | _ => exact (inv.other orderly nofun taken).1

/-- A message is written with all its frames, once each and in order, to each pipe that was eligible
    and fits (or does not fit, with inverted matching) at its first frame, and to no other pipe. -/
theorem message_goes_to_subscribers {options : XpubOptions} (manual : options.manual = false)
    (lossy : options.lossy = true) (hwms : ι → End → Int)
    (reached : Reaches step Orderly (start options hwms) s₀) (boundary : s₀.moreSend = false)
    (run : Trace step (s₀.Undisturbed i) s₀ past s) {first : Msg}
    (starts : (past.map (·.2)).head? = some (.send first lock)) (message : IsMessage (framesOf past)) :
    (s₀.Chooses first i → writtenBy past i = framesOf past) ∧
      (¬ s₀.Chooses first i → writtenBy past i = []) := by
  have inv : s₀.Inv := reached.invariant (P := Inv) (.start manual lossy hwms)
    fun s a s' inv orderly taken => inv.step orderly taken
  have underway : s₀.Underway i past s := run.invariant (.start inv)
    fun past s a s' underway calm taken => underway.step boundary calm taken
  obtain ⟨body, last, frames, more, -⟩ := message
  have begun : ∀ m ∈ (framesOf past).dropLast, m.more = true := by simpa [frames] using more
  obtain ⟨yes, no, -⟩ := underway.some first lock starts begun
  exact ⟨yes, no⟩

theorem message_goes_to_subscribers_two :
    ∃ (s₀ s s' : Xpub (Fin 2)) (past past' : List (Xpub (Fin 2) × Action (Fin 2))),
      Reaches step Orderly (start {} fun _ _ => 0) s₀ ∧
      (Trace step (s₀.Undisturbed 0) s₀ past s ∧ writtenBy past 0 =
        [{ flags := MsgFlag.more, data := [65] }, { data := [66] }]) ∧
      Trace step (s₀.Undisturbed 1) s₀ past' s' ∧ (1, [65]) ∈ s'.held ∧
      writtenBy past' 1 = [] := by
  have message : IsMessage [{ flags := MsgFlag.more, data := [65] }, { data := [66] }] :=
    ⟨[{ flags := MsgFlag.more, data := [65] }], { data := [66] }, rfl, by decide, by decide⟩
  let actions : List (Action (Fin 2)) :=
    [.send { flags := MsgFlag.more, data := [65] } true,
      .peer 1 (.write { data := [1, 65] } true), .peer 1 .flush, .deliver 1 true,
      .send { data := [66] } true]
  let passes (past : List (Xpub (Fin 2) × Action (Fin 2))) (s : Xpub (Fin 2)) : Bool :=
    decide ((past.map (·.2)).head? = some (.send { flags := MsgFlag.more, data := [65] } true) ∧
      framesOf past = [{ flags := MsgFlag.more, data := [65] }, { data := [66] }] ∧
      (1, [65]) ∈ s.held)
  obtain ⟨s₀, reached, boundary, held, eligible, plain, first, second⟩ :=
    exists_reaches step Orderly (start {} fun (_ : Fin 2) _ => 0)
    [.attach 0 false true, .attach 1 false true,
      .peer 0 (.write { data := [1, 65] } true), .peer 0 .flush, .deliver 0 true]
    (fun s => s.moreSend = false ∧ s.held = [(0, [65])] ∧ s.dist.isEligible 0 ∧
      s.options.invertMatching = false ∧
      (record step (s.Undisturbed 0) s actions).any (fun r => passes r.1 r.2) = true ∧
      (record step (s.Undisturbed 1) s actions).any (fun r => passes r.1 r.2) = true)
    (by decide +kernel)
  obtain ⟨past, s, run, passed⟩ := trace_of_record step (s₀.Undisturbed 0) s₀ actions passes first
  obtain ⟨past', s', run', passed'⟩ :=
    trace_of_record step (s₀.Undisturbed 1) s₀ actions passes second
  obtain ⟨starts, frames, -⟩ := of_decide_eq_true passed
  obtain ⟨starts', frames', late⟩ := of_decide_eq_true passed'
  refine ⟨s₀, s, s', past, past', reached, ⟨run, ?_⟩, run', late, ?_⟩
  · have chosen : s₀.Chooses { flags := MsgFlag.more, data := [65] } 0 :=
      ⟨eligible, by simp [Fits, held, plain]⟩
    rw [← frames]
    exact (message_goes_to_subscribers rfl rfl _ reached boundary run starts
      (frames ▸ message)).1 chosen
  · have skipped : ¬ s₀.Chooses { flags := MsgFlag.more, data := [65] } 1 := by
      simp [Chooses, Fits, held, plain]
    exact (message_goes_to_subscribers rfl rfl _ reached boundary run' starts'
      (frames' ▸ message)).2 skipped

end Xpub

end Zmq
