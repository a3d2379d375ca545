import Zmq.Pattern.Xpub

/-! # What a publisher tells its user

The notifications of an `xpub_t` come from three places: the result of `add`, the result of
`rm` and the callback for the topics of a pipe that is gone. A forwarding device relies on
them to know what is subscribed to, and in manual mode the user answers to the peer that a
notification came from.
-/

namespace Zmq

open Lib

namespace Xpub

variable {ι : Type} [LinearOrder ι] {a : Action ι} {test : Xpub ι → ι → Msg → Bool}
  {Q : Xpub ι → Prop} {l : List Bool}

/-! ## What is read in one go -/

/-- Every frame that the loop of `xread_activated` reads passes a test when it is read. -/
def heeds (test : Xpub ι → ι → Msg → Bool) (pipe : ι) : Nat → Xpub ι → Bool
  | 0, _ => true
  | n + 1, s =>
    match (s.pair pipe).read .first with
    | .ok (some msg, t) =>
      let s := { s with pair := Function.update s.pair pipe t }
      test s pipe msg && match s.receive pipe msg with
        | .ok s => heeds test pipe n s
        | .error _ => true
    | _ => true

def heedsIn (test : Xpub ι → ι → Msg → Bool) (s : Xpub ι) : Action ι → Bool
  | .attach pipe toAll tryLock =>
    match s.enter pipe toAll tryLock with
    | .ok s => heeds test pipe (s.waiting pipe + 1) s
    | .error _ => true
  | .deliver pipe _ =>
    match (s.pair pipe).deliver .first with
    | .ok (t, some .readActivated) =>
      let s := { s with pair := Function.update s.pair pipe t }
      heeds test pipe (s.waiting pipe + 1) s
    | _ => true
  | _ => true

variable {s s' : Xpub ι} {pipe p : ι} {msg : Msg} {topic t : List UInt8}

theorem readFrom_invariant (pair : ∀ s pair, Q s → Q { s with pair := pair })
    (frame : ∀ s msg s', Q s → test s pipe msg = true → s.receive pipe msg = .ok s' → Q s')
    {n : Nat} (holds : Q s) (heeds : heeds test pipe n s = true)
    (done : readFrom pipe n s = .ok s') : Q s' := by
  induction n generalizing s with
  | zero =>
    cases done
    exact holds
  | succ n ih =>
    obtain ⟨⟨r, t⟩, taken, done⟩ := bind_ok.mp done
    have next := pair s (Function.update s.pair pipe t) holds
    cases r with
    | none =>
      cases done
      exact next
    | some m =>
      obtain ⟨s₁, received, done⟩ := bind_ok.mp done
      simp only [Xpub.heeds, taken, received, Bool.and_eq_true] at heeds
      exact ih (frame _ m s₁ next heeds.1 received) heeds.2 done

/-! ## Steps that say nothing -/

structure Same (s s' : Xpub ι) : Prop where
  options : s'.options = s.options
  subscriptions : s'.subscriptions = s.subscriptions
  manualSubscriptions : s'.manualSubscriptions = s.manualSubscriptions
  held : s'.held = s.held
  returned : s'.returned = s.returned
  pendingData : s'.pendingData = s.pendingData
  pendingPipes : s'.pendingPipes = s.pendingPipes
  origins : s'.origins = s.origins

omit [LinearOrder ι] in
theorem Same.refl (s : Xpub ι) : s.Same s :=
  ⟨rfl, rfl, rfl, rfl, rfl, rfl, rfl, rfl⟩

omit [LinearOrder ι] in
theorem Same.trans {a b c : Xpub ι} (first : a.Same b) (second : b.Same c) : a.Same c where
  options := second.options.trans first.options
  subscriptions := second.subscriptions.trans first.subscriptions
  manualSubscriptions := second.manualSubscriptions.trans first.manualSubscriptions
  held := second.held.trans first.held
  returned := second.returned.trans first.returned
  pendingData := second.pendingData.trans first.pendingData
  pendingPipes := second.pendingPipes.trans first.pendingPipes
  origins := second.origins.trans first.origins

theorem setNodelay_same (s : Xpub ι) (pipe : ι) : s.Same (s.setNodelay pipe) := by
  unfold setNodelay
  split
  · exact ⟨rfl, rfl, rfl, rfl, rfl, rfl, rfl, rfl⟩
  · exact .refl s

variable {lock b : Bool}

theorem welcome_same (done : s.welcome pipe lock = .ok s') : s.Same s' := by
  unfold welcome at done
  split at done
  · cases done
    exact .refl s
  · obtain ⟨⟨ok, t⟩, -, done⟩ := bind_ok.mp done
    simp only at done
    split at done
    · obtain ⟨v, -, rfl⟩ := bind_return.mp done
      exact ⟨rfl, rfl, rfl, rfl, rfl, rfl, rfl, rfl⟩
    · cases done

theorem enter_same (done : s.enter pipe false lock = .ok s') : s.Same s' := by
  obtain ⟨d, -, done⟩ := bind_ok.mp done
  have dist : (s.setNodelay pipe).Same { s.setNodelay pipe with dist := d } :=
    ⟨rfl, rfl, rfl, rfl, rfl, rfl, rfl, rfl⟩
  exact ((setNodelay_same s pipe).trans dist).trans (welcome_same done)

theorem select_same (done : s.select msg = .ok s') : s.Same s' := by
  obtain ⟨d, -, done⟩ := bind_ok.mp done
  obtain ⟨d', -, rfl⟩ := bind_return.mp done
  exact ⟨rfl, rfl, rfl, rfl, rfl, rfl, rfl, rfl⟩

theorem transmit_same (done : s.transmit msg lock = .ok (b, s')) : s.Same s' := by
  unfold transmit at done
  split at done
  · obtain ⟨⟨d, pair⟩, -, ⟨⟩⟩ := bind_ok.mp done
    exact ⟨rfl, rfl, rfl, rfl, rfl, rfl, rfl, rfl⟩
  · cases done
    exact .refl s

theorem xsend_same (done : s.xsend msg lock = .ok (b, s')) : s.Same s' := by
  unfold xsend at done
  split at done
  · exact transmit_same done
  · obtain ⟨s₁, selected, sent⟩ := bind_ok.mp done
    exact (select_same selected).trans (transmit_same sent)

theorem select_lastPipe (done : s.select msg = .ok s') :
    s'.lastPipe = s.lastPipe ∨ s'.lastPipe = none := by
  obtain ⟨d, -, done⟩ := bind_ok.mp done
  obtain ⟨d', -, rfl⟩ := bind_return.mp done
  split
  · exact .inr rfl
  · exact .inl rfl

theorem transmit_lastPipe (done : s.transmit msg lock = .ok (b, s')) :
    s'.lastPipe = s.lastPipe := by
  unfold transmit at done
  split at done
  · obtain ⟨⟨d, pair⟩, -, ⟨⟩⟩ := bind_ok.mp done
    rfl
  · cases done
    rfl

theorem xsend_lastPipe (done : s.xsend msg lock = .ok (b, s')) :
    s'.lastPipe = s.lastPipe ∨ s'.lastPipe = none := by
  unfold xsend at done
  split at done
  · exact .inl (transmit_lastPipe done)
  · obtain ⟨s₁, selected, sent⟩ := bind_ok.mp done
    rw [transmit_lastPipe sent]
    exact select_lastPipe selected

/-! ## Steps -/

def Action.served : Action ι → Option ι
  | .attach pipe .. | .deliver pipe _ => some pipe
  | _ => none

def ended (s : Xpub ι) : Action ι → Option ι
  | .deliver pipe _ =>
    match (s.pair pipe).deliver .first with
    | .ok (_, some .pipeTerminated) => some pipe
    | _ => none
  | _ => none

theorem ended_step (ended : s.ended a = some pipe) (taken : s.step a = .ok s') :
    ∃ pair, xpipeTerminated { s with pair := pair } pipe = .ok s' := by
  cases a with
  | deliver p lock =>
    obtain ⟨⟨t, event⟩, delivered, done⟩ := bind_ok.mp taken
    simp only [Xpub.ended, delivered] at ended
    split at ended
    · rename_i same
      cases same
      cases ended
      exact ⟨_, done⟩
    · cases ended
  | _ => cases ended

theorem step_invariant
    (same : ∀ s s', Q s → s.Same s' → s'.lastPipe = s.lastPipe ∨ s'.lastPipe = none → Q s')
    (enter : ∀ pipe toAll lock s', a = .attach pipe toAll lock →
      s.enter pipe toAll lock = .ok s' → Q s')
    (frame : ∀ pipe s msg s', a.served = some pipe → Q s → test s pipe msg = true →
      s.receive pipe msg = .ok s' → Q s')
    (terminated : ∀ pipe pair s', s.ended a = some pipe → Q { s with pair := pair } →
      xpipeTerminated { s with pair := pair } pipe = .ok s' → Q s')
    (recv : a = .recv → Q s.xrecv.2)
    (setsockopt : ∀ option b s', a = .setsockopt option → s.xsetsockopt option = .ok (b, s') → Q s')
    (holds : Q s) (fair : s.heedsIn test a = true) (taken : s.step a = .ok s') : Q s' := by
  have like (s s' : Xpub ι) (holds : Q s) (equal : s.Same s') (last : s'.lastPipe = s.lastPipe) :
      Q s' := same s s' holds equal (.inl last)
  have pair (s : Xpub ι) (pair : ι → Pair) (holds : Q s) : Q { s with pair := pair } :=
    like s _ holds ⟨rfl, rfl, rfl, rfl, rfl, rfl, rfl, rfl⟩ rfl
  cases a with
  | attach pipe toAll lock =>
    obtain ⟨s₁, entered, done⟩ := bind_ok.mp taken
    simp only [heedsIn, entered] at fair
    exact readFrom_invariant pair (fun s msg s' => frame pipe s msg s' rfl)
      (enter pipe toAll lock s₁ rfl entered) fair done
  | send msg lock =>
    obtain ⟨⟨b, s₁⟩, sent, rfl⟩ := map_ok.mp taken
    exact same s s₁ holds (xsend_same sent) (xsend_lastPipe sent)
  | recv =>
    cases taken
    exact recv rfl
  | setsockopt option =>
    obtain ⟨⟨b, s₁⟩, set, rfl⟩ := map_ok.mp taken
    exact setsockopt option b s₁ rfl set
  | call pipe a | peer pipe a =>
    obtain ⟨t, -, rfl⟩ := bind_return.mp taken
    exact pair s _ holds
  | deliver pipe lock =>
    obtain ⟨⟨t, event⟩, delivered, done⟩ := bind_ok.mp taken
    have next := pair s (Function.update s.pair pipe t) holds
    cases event with
    | none =>
      cases done
      exact next
    | some event =>
      cases event with
      | readActivated =>
        simp only [heedsIn, delivered] at fair
        exact readFrom_invariant pair (fun s msg s' => frame pipe s msg s' rfl) next fair done
      | writeActivated =>
        obtain ⟨d, -, rfl⟩ := bind_return.mp done
        exact like s _ holds ⟨rfl, rfl, rfl, rfl, rfl, rfl, rfl, rfl⟩ rfl
      | pipeTerminated =>
        exact terminated pipe _ s' (by simp only [ended, delivered]) next done
      | hiccuped =>
        simp only [react] at done
        split at done
        · obtain ⟨v, -, rfl⟩ := bind_return.mp done
          exact pair s _ holds
        · cases done
      | statsPublish =>
        cases done
        exact next

/-! ## Topics of a pipe that is gone -/

omit [LinearOrder ι] in
theorem sendUnsubscription_all (topics : List (List UInt8)) (s : Xpub ι)
    (xpub : s.options.pub = false) :
    topics.foldl sendUnsubscription s = { s with
        pendingData := s.pendingData ++ topics.map (0 :: ·)
        pendingFlags := s.pendingFlags ++ topics.map fun _ => 0
        origins := s.origins ++ topics.map fun _ => .gone
        lastPipe := if s.options.manual && !topics.isEmpty then none else s.lastPipe
        pendingPipes :=
          if s.options.manual then s.pendingPipes ++ topics.map fun _ => none
          else s.pendingPipes } := by
  induction topics generalizing s with
  | nil => simp
  | cons topic rest ih =>
    rw [List.foldl_cons]
    cases manual : s.options.manual with
    | false | true =>
      rw [ih _ (by simp [sendUnsubscription, push, xpub, manual])]
      simp [sendUnsubscription, push, xpub, manual]

/-! ## Notifications -/

def note (topic : List UInt8) : List UInt8 → Option Bool
  | [] => none
  | kind :: t => if t = topic then some (kind == 1) else none

def notes (topic : List UInt8) (messages : List (List UInt8)) : List Bool :=
  messages.filterMap (note topic)

/-- Subscribe and unsubscribe in turn, subscribe first. -/
def Alternating (l : List Bool) : Prop := l.IsChain (· ≠ ·) ∧ l.head? ≠ some false

theorem Alternating.left {k : List Bool} (alternating : Alternating (l ++ k)) : Alternating l := by
  refine ⟨alternating.1.left_of_append, fun first => alternating.2 ?_⟩
  cases l with
  | nil => cases first
  | cons b l => exact first

theorem Alternating.snoc (alternating : Alternating l) (other : l.getLast? ≠ some b)
    (first : l = [] → b = true) : Alternating (l ++ [b]) := by
  refine ⟨List.isChain_append.mpr ⟨alternating.1, .singleton b, ?_⟩, fun same => ?_⟩
  · intro x last y only equal
    simp only [Option.mem_def] at last only
    rw [equal, ← only] at last
    exact other last
  · cases l with
    | nil =>
      rw [first rfl] at same
      cases same
    | cons c l => exact alternating.2 same

@[simp] theorem notes_append (topic : List UInt8) (a b : List (List UInt8)) :
    notes topic (a ++ b) = notes topic a ++ notes topic b := List.filterMap_append

theorem notes_unsubscribe {topics : List (List UInt8)} (nodup : topics.Nodup) (topic : List UInt8) :
    notes topic (topics.map (0 :: ·)) = if topic ∈ topics then [false] else [] := by
  induction topics with
  | nil => rfl
  | cons first rest ih =>
    obtain ⟨new, nodup⟩ := List.nodup_cons.mp nodup
    have rest' := ih nodup
    simp only [notes, List.map_cons, List.filterMap_cons, note] at rest' ⊢
    by_cases same : first = topic
    · subst same
      simp [rest', new]
    · have other : ¬ topic = first := fun equal => same equal.symm
      simp [rest', same, other]

variable (s : Xpub ι)

def told : List (List UInt8) := s.returned.map (·.data) ++ s.pendingData

/-- An `xpub_t` that is not verbose and not in manual mode. -/
structure Plain (o : XpubOptions) : Prop where
  pub : o.pub = false
  manual : o.manual = false
  verboseSubs : o.verboseSubs = false
  verboseUnsubs : o.verboseUnsubs = false

/-- Attachments, subscriptions, cancellations, terminations and what does not touch them. -/
def Possible (a : Action ι) : Prop :=
  s.heedsIn (fun s _ msg => decide (s.reading msg ≠ .user)) a = true ∧ match a with
    | .setsockopt _ => False
    | _ => True

/-- Whether a frame cancels nothing but what its pipe holds. -/
def entitled (pipe : ι) (msg : Msg) : Bool :=
  match s.reading msg with
  | .subscribe _ => true
  | .cancel topic => decide ((pipe, topic) ∈ s.held)
  | .user => false

/-- Pipes cancel only what they are subscribed to, and none is subscribed to all by its
    attachment. -/
def Tidy (a : Action ι) : Prop :=
  s.heedsIn entitled a = true ∧ match a with
    | .setsockopt _ => False
    | .attach _ toAll _ => toAll = false
    | _ => True

instance (a : Action ι) : Decidable (s.Possible a) := by
  cases a <;> dsimp only [Possible] <;> infer_instance

instance (a : Action ι) : Decidable (s.Tidy a) := by
  cases a <;> dsimp only [Tidy] <;> infer_instance

/-- The notifications for each topic are subscribe and unsubscribe in turn, and once all are
    fetched the last one says whether somebody is subscribed to the topic. -/
def Informs : Prop :=
  ∀ topic, Alternating (notes topic (s.returned.map (·.data))) ∧
    (s.pendingData = [] → ((notes topic (s.returned.map (·.data))).getLast? = some true ↔
      ∃ pipe, (pipe, topic) ∈ s.held))

variable {s}

structure Told (s : Xpub ι) : Prop where
  plain : Plain s.options
  ok : s.subscriptions.Ok
  held : ∀ p topic, (p, topic) ∈ s.held ↔ p ∈ s.subscriptions.subscribers topic
  alternating : ∀ topic, Alternating (notes topic s.told)
  last : ∀ topic, (notes topic s.told).getLast? = some true ↔
    s.subscriptions.subscribers topic ≠ []

namespace Told

section

omit [LinearOrder ι]

theorem informs (told : s.Told) : s.Informs := by
  intro topic
  have alternating := told.alternating topic
  have last := told.last topic
  unfold Xpub.told at alternating last
  rw [notes_append] at alternating last
  refine ⟨alternating.left, fun fetched => ?_⟩
  rw [fetched] at last
  simp only [notes, List.filterMap_nil, List.append_nil] at last ⊢
  rw [last]
  constructor
  · intro some
    obtain ⟨p, member⟩ := List.exists_mem_of_ne_nil _ some
    exact ⟨p, (told.held p topic).mpr member⟩
  · rintro ⟨p, member⟩
    exact List.ne_nil_of_mem ((told.held p topic).mp member)

theorem start {options : XpubOptions} (plain : Plain options) (hwms : ι → End → Int) :
    (start options hwms).Told where
  plain := plain
  ok := .empty
  held p topic := by simp [Xpub.start]
  alternating topic := ⟨.nil, nofun⟩
  last topic := by simp [Xpub.start, Xpub.told, notes]

theorem same (told : s.Told) (same : s.Same s') : s'.Told := by
  have all : s'.told = s.told := by rw [Xpub.told, same.returned, same.pendingData, Xpub.told]
  refine ⟨same.options ▸ told.plain, same.subscriptions ▸ told.ok, ?_, ?_, ?_⟩
  · rw [same.held, same.subscriptions]
    exact told.held
  · rw [all]
    exact told.alternating
  · rw [all, same.subscriptions]
    exact told.last

theorem change (told : s.Told) (news : List (List UInt8)) (options : s'.options = s.options)
    (ok : s'.subscriptions.Ok)
    (held : ∀ p topic, (p, topic) ∈ s'.held ↔ p ∈ s'.subscriptions.subscribers topic)
    (all : s'.told = s.told ++ news)
    (each : ∀ topic, notes topic news = [] ∧ (s'.subscriptions.subscribers topic = [] ↔
        s.subscriptions.subscribers topic = []) ∨
      ∃ b, notes topic news = [b] ∧ (s.subscriptions.subscribers topic = [] ↔ b = true) ∧
        (s'.subscriptions.subscribers topic = [] ↔ b = false)) : s'.Told := by
  refine ⟨options ▸ told.plain, ok, held, fun topic => ?_, fun topic => ?_⟩
  · rw [all, notes_append]
    rcases each topic with ⟨quiet, -⟩ | ⟨b, said, before, -⟩
    · rw [quiet, List.append_nil]
      exact told.alternating topic
    · rw [said]
      refine (told.alternating topic).snoc (fun same => ?_) fun none => ?_
      · have last := told.last topic
        cases b <;> simp_all
      · have last := told.last topic
        rw [none] at last
        exact before.mp (by simpa using last)
  · rw [all, notes_append]
    rcases each topic with ⟨quiet, same⟩ | ⟨b, said, -, after⟩
    · rw [quiet, List.append_nil, told.last topic]
      exact not_congr same.symm
    · rw [said, List.getLast?_append_of_ne_nil _ (by simp)]
      cases b <;> simp_all

theorem subscribers_congr {n n' : Mtrie ι}
    (same : ∀ p, p ∈ n'.subscribers topic ↔ p ∈ n.subscribers topic) :
    n'.subscribers topic = [] ↔ n.subscribers topic = [] := by
  simp only [List.eq_nil_iff_forall_not_mem, same]

end

theorem subscribe (told : s.Told) (done : s.handle pipe topic true = .ok s') : s'.Told := by
  obtain ⟨trie, added, ok, members⟩ := Mtrie.add_spec told.ok pipe topic
  obtain ⟨⟨notify, s₁⟩, updated, done⟩ := bind_ok.mp done
  simp only [update, told.plain.manual, added, told.plain.verboseSubs, Bool.or_false] at updated
  obtain ⟨rfl, rfl⟩ := updated
  simp only [told.plain.manual, told.plain.pub, Bool.false_or, Bool.not_false, Bool.true_and,
    decide_eq_true_eq] at done
  have held (p : ι) (t : List UInt8) : (p, t) ∈ (pipe, topic) :: s.held ↔ p ∈ trie.subscribers t := by
    rw [members, List.mem_cons, told.held, Prod.mk.injEq]
    tauto
  have filled : trie.subscribers topic ≠ [] :=
    List.ne_nil_of_mem ((members topic pipe).mpr (.inr ⟨rfl, rfl⟩))
  have others (t : List UInt8) (other : t ≠ topic) :
      trie.subscribers t = [] ↔ s.subscriptions.subscribers t = [] :=
    subscribers_congr fun p => by simp [members, other]
  split at done
  · rename_i first
    cases done
    refine told.change [1 :: topic] rfl ok held ?_ fun t => ?_
    · simp [Xpub.told, push]
    · by_cases equal : t = topic
      · subst equal
        exact .inr ⟨true, by simp [notes, note], by simp [first], by simpa [push] using filled⟩
      · refine .inl ⟨?_, others t equal⟩
        simp [notes, note, Ne.symm equal]
  · rename_i later
    cases done
    refine told.change [] rfl ok held (by simp [Xpub.told]) fun t => .inl ⟨rfl, ?_⟩
    by_cases equal : t = topic
    · subst equal
      simp [later, filled]
    · exact others t equal

theorem cancel (told : s.Told) (holds : (pipe, topic) ∈ s.held)
    (done : s.handle pipe topic false = .ok s') : s'.Told := by
  obtain ⟨result, trie, removed, ok, members, missing, remain⟩ :=
    Mtrie.rm_spec told.ok pipe topic
  obtain ⟨⟨notify, s₁⟩, updated, done⟩ := bind_ok.mp done
  simp only [update, told.plain.manual, removed, told.plain.verboseUnsubs, Bool.or_false] at updated
  obtain ⟨rfl, rfl⟩ := updated
  simp only [told.plain.manual, told.plain.pub, Bool.false_or, Bool.not_false, Bool.true_and,
    bne_iff_ne] at done
  have there : pipe ∈ s.subscriptions.subscribers topic := (told.held pipe topic).mp holds
  have held (p : ι) (t : List UInt8) : (p, t) ∈ s.held.filter (· ≠ (pipe, topic)) ↔
      p ∈ trie.subscribers t := by
    rw [members, List.mem_filter, told.held]
    simp only [Prod.mk.injEq, decide_not, Bool.not_eq_true', decide_eq_false_iff_not]
    tauto
  have others (t : List UInt8) (other : t ≠ topic) :
      trie.subscribers t = [] ↔ s.subscriptions.subscribers t = [] :=
    subscribers_congr fun p => by simp [members, other]
  have before : s.subscriptions.subscribers topic ≠ [] := List.ne_nil_of_mem there
  split at done
  · rename_i last
    have emptied : trie.subscribers topic = [] := by
      by_contra left
      exact last (remain.mpr ⟨there, left⟩)
    cases done
    refine told.change [0 :: topic] rfl ok held ?_ fun t => ?_
    · simp [Xpub.told, push]
    · by_cases equal : t = topic
      · subst equal
        exact .inr ⟨false, by simp [notes, note], by simp [before], by simpa [push] using emptied⟩
      · refine .inl ⟨?_, others t equal⟩
        simp [notes, note, Ne.symm equal]
  · rename_i some
    have left := (remain.mp (by simpa using some)).2
    cases done
    refine told.change [] rfl ok held (by simp [Xpub.told]) fun t => .inl ⟨rfl, ?_⟩
    by_cases equal : t = topic
    · subst equal
      simp [left, before]
    · exact others t equal

theorem receive (told : s.Told) (fair : s.entitled pipe msg = true)
    (done : s.receive pipe msg = .ok s') : s'.Told := by
  unfold Xpub.receive at done
  unfold entitled at fair
  have next (more processes : Bool) : Told { s with
      moreRecv := more, processSubscribe := processes } :=
    told.same ⟨rfl, rfl, rfl, rfl, rfl, rfl, rfl, rfl⟩
  cases asked : s.reading msg with
  | subscribe topic =>
    rw [asked] at done
    exact (next _ _).subscribe done
  | cancel topic =>
    rw [asked] at done fair
    exact (next _ _).cancel (by simpa using fair) done
  | user => simp [asked] at fair

theorem terminated (told : s.Told) (done : s.xpipeTerminated pipe = .ok s') : s'.Told := by
  obtain ⟨topics, trie, removed, ok, members, nodup, listed⟩ :=
    Mtrie.rmValue_spec told.ok pipe true
  unfold xpipeTerminated at done
  simp only [told.plain.manual, told.plain.verboseUnsubs,
    Bool.not_false, removed, ok_bind] at done
  rw [sendUnsubscription_all topics
    { s with subscriptions := trie, held := s.held.filter (·.1 ≠ pipe) } told.plain.pub] at done
  obtain ⟨d, -, rfl⟩ := bind_return.mp done
  refine told.change (topics.map (0 :: ·)) rfl ok (fun p t => ?_) ?_ fun t => ?_
  · rw [members, List.mem_filter, told.held]
    simp
  · simp [Xpub.told]
  · rw [notes_unsubscribe nodup]
    by_cases member : t ∈ topics
    · obtain ⟨there, emptied⟩ := (listed t).mp member
      exact .inr ⟨false, if_pos member, by simpa using List.ne_nil_of_mem there,
        by simpa using emptied rfl⟩
    · refine .inl ⟨if_neg member, ?_⟩
      by_cases there : pipe ∈ s.subscriptions.subscribers t
      · have left : trie.subscribers t ≠ [] := by
          intro emptied
          exact member ((listed t).mpr ⟨there, fun _ => emptied⟩)
        simpa [left] using List.ne_nil_of_mem there
      · refine subscribers_congr fun p => ?_
        rw [members]
        refine ⟨And.left, fun inside => ⟨inside, ?_⟩⟩
        rintro rfl
        exact there inside

omit [LinearOrder ι] in
theorem recv (told : s.Told) : s.xrecv.2.Told := by
  unfold xrecv
  simp only [told.plain.pub, told.plain.manual, Bool.false_eq_true, if_false]
  split
  · exact told
  · rename_i data rest pending
    refine told.change [] rfl told.ok told.held ?_ fun t => .inl ⟨rfl, Iff.rfl⟩
    simp [Xpub.told, pending, Msg.initSize]

theorem step (told : s.Told) (tidy : s.Tidy a) (taken : s.step a = .ok s') : s'.Told := by
  obtain ⟨fair, kind⟩ := tidy
  refine step_invariant (fun _ _ told same _ => told.same same) ?_
    (fun _ _ _ _ _ told fair done => told.receive fair done)
    (fun _ _ _ _ told done => told.terminated done) (fun _ => told.recv) ?_ told fair taken
  · rintro pipe toAll lock s₁ rfl entered
    obtain rfl : toAll = false := kind
    exact told.same (enter_same entered)
  · rintro option b s₁ rfl
    cases kind

end Told

/-- In every run in which pipes cancel only what they hold, and none is subscribed to all by its
    attachment, the notifications describe the subscriptions. -/
theorem tidy_notifications_inform {options : XpubOptions} (plain : Plain options)
    (hwms : ι → End → Int) (reached : Reaches step Tidy (start options hwms) s) : s.Informs := by
  have told : s.Told := reached.invariant (.start plain hwms)
    fun _ _ _ told tidy taken => told.step tidy taken
  exact told.informs

theorem tidy_notifications_inform_two :
    ∃ s : Xpub (Fin 2), Reaches step Tidy (start {} fun _ _ => 0) s ∧
      s.returned.map (·.data) = [[1, 65], [0, 65]] ∧ s.Informs :=
  exists_run_and
    [.attach 0 false true, .attach 1 false true,
      .peer 0 (.write { data := [1, 65] } true), .peer 0 .flush, .deliver 0 true,
      .peer 1 (.write { data := [1, 65] } true), .peer 1 .flush, .deliver 1 true,
      .peer 0 (.write { data := [0, 65] } true), .peer 0 .flush, .deliver 0 true,
      .peer 1 (.write { data := [0, 65] } true), .peer 1 .flush, .deliver 1 true, .recv, .recv]
    (by decide +kernel) fun _ reached _ => tidy_notifications_inform ⟨rfl, rfl, rfl, rfl⟩ _ reached

/-- A pipe cancels what it never subscribed to. The user is told of an unsubscription that was
    none, also while another pipe is subscribed. And of the subscription that comes with an
    attachment the user is not told, only of its end. -/
theorem strange_cancel_misinforms :
    (∃ s : Xpub (Fin 2), Reaches step Possible (start {} fun _ _ => 0) s ∧
      s.returned.map (·.data) = [[0, 65]] ∧ ¬ s.Informs) ∧
    (∃ s : Xpub (Fin 2), Reaches step Possible (start {} fun _ _ => 0) s ∧
      s.returned.map (·.data) = [[1, 65], [0, 65]] ∧ s.pendingData = [] ∧
      (0, [65]) ∈ s.held ∧ ¬ s.Informs) ∧
    ∃ s : Xpub (Fin 2), Reaches step Possible (start {} fun _ _ => 0) s ∧
      s.returned = [] ∧ s.pendingData = [] ∧ (0, []) ∈ s.held ∧ ¬ s.Informs := by
  refine ⟨?_, ?_, ?_⟩
  · refine exists_run_and
      [.attach 0 false true, .peer 0 (.write { data := [0, 65] } true), .peer 0 .flush,
        .deliver 0 true, .recv]
      (by decide +kernel) fun s _ returned informs => (informs [65]).1.2 ?_
    rw [returned]
    rfl
  · refine exists_run_and₃
      [.attach 0 false true, .attach 1 false true,
        .peer 0 (.write { data := [1, 65] } true), .peer 0 .flush, .deliver 0 true,
        .peer 1 (.write { data := [0, 65] } true), .peer 1 .flush, .deliver 1 true, .recv, .recv]
      (by decide +kernel) fun s _ returned fetched held informs => ?_
    have last := ((informs [65]).2 fetched).mpr ⟨0, held⟩
    rw [returned] at last
    cases last
  · refine exists_run_and₃ [.attach 0 true true] (by decide +kernel)
      fun s _ returned fetched held informs => ?_
    have last := ((informs []).2 fetched).mpr ⟨0, held⟩
    rw [returned] at last
    cases last

/-! ## Manual mode -/

/-- The entry of `_pending_pipes` that goes with a notification. -/
def sender : Origin ι → Option ι
  | .request pipe => some pipe
  | .user _ | .gone => none

def Manual (_ : Xpub ι) : Action ι → Prop
  | .setsockopt (.manual _) | .setsockopt (.manualLastValue _) => False
  | _ => True

variable (s : Xpub ι)

/-- And nothing but subscriptions and cancellations comes upstream. -/
def ManualOnly (a : Action ι) : Prop :=
  s.Manual a ∧ s.heedsIn (fun s _ msg => decide (s.reading msg ≠ .user)) a = true

instance (a : Action ι) : Decidable (s.Manual a) := by
  cases a with
  | setsockopt e => cases e <;> dsimp only [Manual] <;> infer_instance
  | _ => dsimp only [Manual]; infer_instance

instance (a : Action ι) : Decidable (s.ManualOnly a) :=
  inferInstanceAs (Decidable (_ ∧ _))

/-- After a notification was fetched, `_last_pipe` is the pipe it came from. -/
def NamesSender : Prop :=
  ∀ msg s', s.xrecv = (some msg, s') →
    (∀ pipe ∈ s.dist.pipes.items, s.origins.head? = some (.request pipe) →
      s'.lastPipe = some pipe) ∧
    (s.origins.head? = some .gone → s'.lastPipe = none)

variable {s}

structure Paired (s : Xpub ι) : Prop where
  manual : s.options.manual = true
  pub : s.options.pub = false
  pipes : s.pendingPipes = s.origins.map sender

namespace Paired

section

variable (paired : s.Paired)
include paired

omit [LinearOrder ι] in
theorem namesSender : s.NamesSender := by
  intro msg s' fetched
  unfold xrecv at fetched
  simp only [paired.pub, Bool.false_eq_true, if_false, paired.manual, if_true] at fetched
  cases pending : s.pendingData with
  | nil => simp [pending] at fetched
  | cons data rest =>
    have front (o : Origin ι) (first : s.origins.head? = some o) : s'.lastPipe = sender o := by
      obtain ⟨later, origins⟩ : ∃ later, s.origins = o :: later := by
        cases o : s.origins with
        | nil => simp [o] at first
        | cons x later => exact ⟨later, by simpa [o] using first⟩
      have pipes := paired.pipes
      rw [origins, List.map_cons] at pipes
      simp only [pending, pipes, Prod.mk.injEq] at fetched
      rw [← fetched.2]
    exact ⟨fun pipe _ first => front _ first, fun first => front _ first⟩

omit [LinearOrder ι] in
theorem same (same : s.Same s') : s'.Paired := by
  refine ⟨same.options ▸ paired.manual, same.options ▸ paired.pub, ?_⟩
  rw [same.pendingPipes, same.origins]
  exact paired.pipes

theorem handle {subscribe : Bool} (done : s.handle pipe topic subscribe = .ok s') : s'.Paired := by
  obtain ⟨⟨notify, s₁⟩, updated, done⟩ := bind_ok.mp done
  have next : ∃ trie, s₁ = { s with
      manualSubscriptions := trie, pendingPipes := s.pendingPipes ++ [some pipe] } := by
    unfold update at updated
    rw [if_pos paired.manual] at updated
    cases subscribe with
    | true | false =>
      obtain ⟨⟨b, trie⟩, changed, rest⟩ := bind_ok.mp updated
      cases rest
      exact ⟨trie, rfl⟩
  obtain ⟨trie, rfl⟩ := next
  simp only [paired.manual] at done
  cases done
  exact ⟨paired.manual, paired.pub, by simp [push, paired.pipes, sender]⟩

theorem receive (fair : s.reading msg ≠ .user)
    (done : s.receive pipe msg = .ok s') : s'.Paired := by
  unfold Xpub.receive at done
  have next (more processes : Bool) : Paired { s with
      moreRecv := more, processSubscribe := processes } :=
    paired.same ⟨rfl, rfl, rfl, rfl, rfl, rfl, rfl, rfl⟩
  cases asked : s.reading msg with
  | subscribe topic | cancel topic =>
    rw [asked] at done
    exact (next _ _).handle done
  | user => exact absurd asked fair

theorem enter {toAll lock : Bool} (done : s.enter pipe toAll lock = .ok s') : s'.Paired := by
  cases toAll with
  | false => exact paired.same (enter_same done)
  | true =>
    obtain ⟨d, -, done⟩ := bind_ok.mp done
    obtain ⟨s₁, subscribed, welcomed⟩ := bind_ok.mp done
    obtain ⟨⟨b, trie⟩, added, ⟨⟩⟩ := bind_ok.mp subscribed
    have first := paired.same (setNodelay_same s pipe)
    have next : Paired { s.setNodelay pipe with
        dist := d, subscriptions := trie, held := (pipe, []) :: (s.setNodelay pipe).held } :=
      { first with }
    exact next.same (welcome_same welcomed)

theorem terminated (done : s.xpipeTerminated pipe = .ok s') : s'.Paired := by
  unfold xpipeTerminated at done
  simp only [paired.manual] at done
  obtain ⟨⟨topics, manual⟩, -, done⟩ := bind_ok.mp done
  obtain ⟨⟨uniq, trie⟩, -, done⟩ := bind_ok.mp done
  obtain ⟨d, -, rfl⟩ := bind_return.mp done
  rw [sendUnsubscription_all topics { s with manualSubscriptions := manual } paired.pub]
  refine ⟨paired.manual, paired.pub, ?_⟩
  simp only [paired.manual, paired.pipes, List.map_append, List.map_map]
  rfl

omit [LinearOrder ι] in
theorem recv : s.xrecv.2.Paired := by
  unfold xrecv
  simp only [paired.pub, Bool.false_eq_true, if_false, paired.manual, if_true]
  split
  · exact paired
  · cases origins : s.origins with
    | nil =>
      have pipes : s.pendingPipes = [] := by simp [paired.pipes, origins]
      simp only [pipes]
      exact ⟨paired.manual, paired.pub, by simp [origins]⟩
    | cons o later =>
      have pipes := paired.pipes
      rw [origins, List.map_cons] at pipes
      simp only [pipes]
      exact ⟨paired.manual, paired.pub, rfl⟩

theorem setsockopt {option : XpubOption} (stays : s.Manual (.setsockopt option)) {b : Bool}
    (set : s.xsetsockopt option = .ok (b, s')) : s'.Paired := by
  cases option with
  | verbose on | verboser on | nodrop on | onlyFirstSubscribe on | welcomeMsg data =>
    cases set
    exact { paired with }
  | manualLastValue on | manual on => cases stays
  | subscribe topic | unsubscribe topic =>
    simp only [xsetsockopt, paired.manual, if_true] at set
    split at set
    · cases set
      exact paired
    · obtain ⟨⟨b, trie⟩, added, ⟨⟩⟩ := bind_ok.mp set
      exact { paired with }

theorem step (fair : s.ManualOnly a) (taken : s.step a = .ok s') : s'.Paired := by
  refine step_invariant (fun _ _ paired same _ => paired.same same)
    (fun _ _ _ _ _ entered => paired.enter entered)
    (fun _ _ _ _ _ paired fair done => paired.receive (of_decide_eq_true fair) done)
    (fun _ _ _ _ paired done => paired.terminated done) (fun _ => paired.recv) ?_ paired fair.2 taken
  rintro option b s₁ rfl set
  exact paired.setsockopt fair.1 set

end

end Paired

/-- In every run in manual mode in which the other sides send nothing but subscriptions and
    cancellations, the user answers to the right peer. -/
theorem manual_recv_names_sender {options : XpubOptions} (manual : options.manual = true)
    (xpub : options.pub = false) (hwms : ι → End → Int)
    (reached : Reaches step ManualOnly (start options hwms) s) : s.NamesSender := by
  have paired : s.Paired := reached.invariant (P := Paired) ⟨manual, xpub, rfl⟩
    fun _ _ _ paired fair taken => paired.step fair taken
  exact paired.namesSender

theorem manual_recv_names_sender_two :
    ∃ s : Xpub (Fin 2), Reaches step ManualOnly (start { manual := true } fun _ _ => 0) s ∧
      s.origins = [.request 1] ∧ (1 ∈ s.dist.pipes.items) ∧ s.pendingData = [[1, 66]] ∧
      s.NamesSender :=
  exists_run_and₃
    [.attach 0 false true, .attach 1 false true,
      .peer 0 (.write { data := [1, 65] } true), .peer 0 .flush, .deliver 0 true,
      .peer 1 (.write { data := [1, 66] } true), .peer 1 .flush, .deliver 1 true, .recv]
    (by decide +kernel) fun _ reached _ _ _ => manual_recv_names_sender rfl rfl _ reached

/-- A user message has no entry among the pending pipes: after it was fetched the entry of the
    next subscription is used up, and that of the one after it taken for it. -/
theorem user_message_misnames_sender :
    ∃ s : Xpub (Fin 2), Reaches step Manual (start { manual := true } fun _ _ => 0) s ∧
      0 ∈ s.dist.pipes.items ∧ s.origins.head? = some (.request 0) ∧
      s.xrecv.1.map (·.data) = some [1, 66] ∧ s.xrecv.2.lastPipe = some 1 ∧
      ¬ s.NamesSender := by
  obtain ⟨s, reached, member, first, data, last⟩ := exists_reaches step Manual
    (start { manual := true } fun (_ : Fin 2) _ => 0)
    [.attach 0 false true, .attach 1 false true,
      .peer 0 (.write { data := [65] } true), .peer 0 (.write { data := [1, 66] } true),
      .peer 0 .flush, .deliver 0 true,
      .peer 1 (.write { data := [1, 67] } true), .peer 1 .flush, .deliver 1 true, .recv]
    (fun s => 0 ∈ s.dist.pipes.items ∧ s.origins.head? = some (.request 0) ∧
      s.xrecv.1.map (·.data) = some [1, 66] ∧ s.xrecv.2.lastPipe = some 1) (by decide +kernel)
  refine ⟨s, reached, member, first, data, last, fun names => ?_⟩
  obtain ⟨msg, fetched, -⟩ := Option.map_eq_some_iff.mp data
  have right := (names msg s.xrecv.2 (Prod.ext fetched rfl)).1 0 member first
  rw [last] at right
  cases right

end Xpub

end Zmq
