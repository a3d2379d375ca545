import Zmq.Pattern.Array
import Zmq.Pipe.Written

/-! # The distributor

`dist_t` hands every message of its socket to several of the socket's pipes. Its array has
three regions, each a part of the next: the pipes the current message goes to, those that
could have got it, and those that can get the next one. A pipe that refuses a frame leaves
all three, one that becomes writable in the middle of a message waits in the last.

The reference counts of a message that goes to many pipes are not modelled here.
-/

namespace Zmq

open Lib Function

/-- The test and the swap of `dist_t::pipe_terminated`, the same for each region. -/
def ArrayT.withdraw {ι : Type} [DecidableEq ι] (a : ArrayT ι) (n : Nat) (p : ι) :
    Except Fault (ArrayT ι × Nat) :=
  if a.index p < n then do
    let a' ← a.swap (a.index p) (n - 1)
    .ok (a', n - 1)
  else .ok (a, n)

/-- What became of a pipe that was offered a frame, and whether it took it. -/
inductive Pair.Offered (msg : Msg) (s : Pair) : Bool → Pair → Prop where
  | refused {t : Pair} : s.Writing .first msg false t → Offered msg s false t
  | more {t : Pair} : s.Writing .first msg true t → msg.more = true → Offered msg s true t
  | last {t v : Pair} : s.Writing .first msg true t → msg.more = false → t.Flushing .first v →
      Offered msg s true v

namespace Pair.Offered

variable {msg : Msg} {s t : Pair} {b : Bool}

theorem sound (offered : s.Offered msg b t) (sound : s.Sound) : t.Sound := by
  cases offered with
  | refused writing | more writing => exact writing.sound sound
  | last writing _ flushing =>
    exact flushing.sound (writing.sound sound)

theorem deleted (offered : s.Offered msg b t) :
    (t.pipe .first).deleted = (s.pipe .first).deleted := by
  have kept {b : Bool} {t : Pair} (writing : s.Writing .first msg b t) :
      (t.pipe .first).deleted = (s.pipe .first).deleted := by
    have outcome : Outcome s .first (.write msg true) t := .write writing
    exact outcome.deleted nofun
  cases offered with
  | refused writing | more writing => exact kept writing
  | last writing _ flushing => exact ((Outcome.flush flushing).deleted nofun).trans (kept writing)

theorem lockFree (offered : s.Offered msg b t) (free : s.LockFree) : t.LockFree := by
  have kept {b : Bool} {t : Pair} (writing : s.Writing .first msg b t) : t.LockFree := by
    have outcome : Outcome s .first (.write msg true) t := .write writing
    exact free.outcome outcome
  cases offered with
  | refused writing | more writing => exact kept writing
  | last writing _ flushing => exact (kept writing).outcome (.flush flushing)

theorem outActive (taken : s.Offered msg true t) : (t.pipe .first).outActive = true := by
  cases taken with
  | more writing => cases writing with
    | written lock live => simpa using live
  | last writing _ flushing => cases writing with
    | written lock live => cases flushing <;> simpa using live

theorem taken (offered : s.Offered msg b t) (room : (s.checkWrite .first).1 = true) : b = true := by
  cases offered with
  | refused writing => exact writing.of_checkWrite room
  | more | last => rfl

theorem written (taken : s.Offered msg true t) (free : s.LockFree) :
    (t.pipe .first).state = (s.pipe .first).state ∧
      t.written .first = s.written .first ++ [msg] ∧ (s.Unheard .first → t.Unheard .first) := by
  cases taken with
  | more writing =>
    exact ⟨writing.state_eq.1, writing.written_eq free, fun unheard => unheard.write writing⟩
  | @last v _ writing last flushing =>
    have state : (t.pipe .first).state = (v.pipe .first).state := by cases flushing <;> simp
    exact ⟨state.trans writing.state_eq.1, flushing.written.trans (writing.written_eq free),
      fun unheard => (unheard.write writing).flush flushing⟩

theorem supplies {offered : List (List Msg)} {begun : List Msg} (taken : s.Offered msg true t)
    (supplies : s.Supplies .first offered begun) (handed : s.Handed .first)
    (stays : (s.pipe .first).deleted = false) (data : ∀ m ∈ begun ++ [msg], m.isDelimiter = false) :
    t.Supplies .first (offered ++ if msg.more then [] else [begun ++ [msg]])
      (if msg.more then begun ++ [msg] else []) ∧ t.Handed .first := by
  cases taken with
  | more writing more =>
    simp only [more, if_true, List.append_nil]
    exact ⟨supplies.more stays writing more, handed.more writing more⟩
  | @last v _ writing last flushing =>
    simp only [last]
    obtain ⟨-, deleted⟩ := writing.state_eq
    exact ⟨(supplies.last stays writing last data).flush (deleted.trans stays) flushing,
      handed.finish writing flushing⟩

end Pair.Offered

structure Dist (ι : Type) where
  pipes : ArrayT ι
  matching : Nat
  active : Nat
  eligible : Nat
  more : Bool

namespace Dist

variable {ι : Type} [DecidableEq ι]

def empty : Dist ι where
  pipes := .empty
  matching := 0
  active := 0
  eligible := 0
  more := false

def attach (d : Dist ι) (pipe : ι) : Except Fault (Dist ι) :=
  if there : pipe ∈ d.pipes.items then .error .attachedTwice
  else
    let pipes := d.pipes.pushBack pipe there
    if d.more then do
      let pipes ← pipes.swap d.eligible (pipes.items.length - 1)
      .ok { d with pipes := pipes, eligible := d.eligible + 1 }
    else do
      let pipes ← pipes.swap d.active (pipes.items.length - 1)
      .ok { d with pipes := pipes, active := d.active + 1, eligible := d.eligible + 1 }

def matchPipe (d : Dist ι) (pipe : ι) : Except Fault (Dist ι) :=
  if d.pipes.index pipe < d.matching then .ok d
  else if d.eligible ≤ d.pipes.index pipe then .ok d
  else do
    let pipes ← d.pipes.swap (d.pipes.index pipe) d.matching
    .ok { d with pipes := pipes, matching := d.matching + 1 }

def unmatch (d : Dist ι) : Dist ι := { d with matching := 0 }

/-- The loop of `reverse_match`; the first number is `_eligible - i`. -/
def reverseFrom : Nat → Nat → Dist ι → Except Fault (Dist ι)
  | 0, _, d => .ok d
  | n + 1, i, d => do
      let pipes ← d.pipes.swap i d.matching
      reverseFrom n (i + 1) { d with pipes := pipes, matching := d.matching + 1 }

variable (d : Dist ι)

def reverseMatch : Except Fault (Dist ι) :=
  reverseFrom (d.eligible - d.matching) d.matching d.unmatch

def pipeTerminated (pipe : ι) : Except Fault (Dist ι) := do
  let (pipes, matching) ← d.pipes.withdraw d.matching pipe
  let (pipes, active) ← pipes.withdraw d.active pipe
  let (pipes, eligible) ← pipes.withdraw d.eligible pipe
  let pipes ← pipes.erase pipe
  .ok
    { pipes := pipes, matching := matching, active := active, eligible := eligible, more := d.more }

def makeEligible (pipe : ι) : Except Fault (Dist ι) :=
  if d.eligible < d.pipes.items.length then do
    let pipes ← d.pipes.swap (d.pipes.index pipe) d.eligible
    .ok { d with pipes := pipes, eligible := d.eligible + 1 }
  else .ok d

def makeActive : Except Fault (Dist ι) :=
  if !d.more && d.active < d.pipes.items.length then do
    let pipes ← d.pipes.swap (d.eligible - 1) d.active
    .ok { d with pipes := pipes, active := d.active + 1 }
  else .ok d

def activated (pipe : ι) : Except Fault (Dist ι) := do
  let d ← d.makeEligible pipe
  d.makeActive

/-- What `write` does when the pipe refuses the frame. -/
def refuse (pipe : ι) : Except Fault (Dist ι) := do
  let pipes ← d.pipes.swap (d.pipes.index pipe) (d.matching - 1)
  let pipes ← pipes.swap (pipes.index pipe) (d.active - 1)
  let pipes ← pipes.swap (d.active - 1) (d.eligible - 1)
  .ok
    { d with
      pipes := pipes
      matching := d.matching - 1
      active := d.active - 1
      eligible := d.eligible - 1 }

def write (d : Dist ι) (pair : ι → Pair) (pipe : ι) (msg : Msg) (tryLock : Bool) :
    Except Fault (Bool × Dist ι × (ι → Pair)) := do
  let (written, s) ← (pair pipe).write .first msg tryLock
  if written then
    if msg.more then .ok (true, d, update pair pipe s)
    else do
      let s ← s.flush .first
      .ok (true, d, update pair pipe s)
  else do
    let d ← d.refuse pipe
    .ok (false, d, update pair pipe s)

/-- The loop of `distribute`; the first number is `_matching - i`, which goes down in either
    case. -/
def distributeFrom (msg : Msg) (tryLock : Bool) : Nat → Nat → Dist ι → (ι → Pair) →
    Except Fault (Dist ι × (ι → Pair))
  | 0, _, d, pair => .ok (d, pair)
  | n + 1, i, d, pair =>
    match d.pipes.items[i]? with
    | none => .error .outOfBounds
    | some pipe => do
        let (written, d, pair) ← d.write pair pipe msg tryLock
        distributeFrom msg tryLock n (if written then i + 1 else i) d pair

variable (d : Dist ι)

def distribute (pair : ι → Pair) (msg : Msg) (tryLock : Bool) :
    Except Fault (Dist ι × (ι → Pair)) :=
  distributeFrom msg tryLock d.matching 0 d pair

def sendToMatching (pair : ι → Pair) (msg : Msg) (tryLock : Bool) :
    Except Fault (Dist ι × (ι → Pair)) := do
  let (d, pair) ← d.distribute pair msg tryLock
  .ok ({ d with active := if msg.more then d.active else d.eligible, more := msg.more }, pair)

def sendToAll (pair : ι → Pair) (msg : Msg) (tryLock : Bool) : Except Fault (Dist ι × (ι → Pair)) :=
  { d with matching := d.active }.sendToMatching pair msg tryLock

def checkHwm (d : Dist ι) (pair : ι → Pair) : Bool :=
  (d.pipes.items.take d.matching).all fun i => ((pair i).pipe .first).checkHwm

/-! ## The regions -/

def isMatching (p : ι) : Prop := d.pipes.before d.matching p

def isActive (p : ι) : Prop := d.pipes.before d.active p

def isEligible (p : ι) : Prop := d.pipes.before d.eligible p

instance (p : ι) : Decidable (d.isMatching p) :=
  inferInstanceAs (Decidable (d.pipes.before _ _))

instance (p : ι) : Decidable (d.isActive p) :=
  inferInstanceAs (Decidable (d.pipes.before _ _))

instance (p : ι) : Decidable (d.isEligible p) :=
  inferInstanceAs (Decidable (d.pipes.before _ _))

/-- Each region is a part of the next, and between messages the last two are the same. -/
structure Ok (d : Dist ι) : Prop where
  matching_le : d.matching ≤ d.active
  active_le : d.active ≤ d.eligible
  eligible_le : d.eligible ≤ d.pipes.items.length
  idle : d.more = false → d.active = d.eligible

instance : Decidable d.Ok :=
  decidable_of_iff (_ ∧ _ ∧ _ ∧ (_ → _))
    ⟨fun ok => ⟨ok.1, ok.2.1, ok.2.2.1, ok.2.2.2⟩, fun ok => ⟨ok.1, ok.2, ok.3, ok.4⟩⟩

variable {d d' : Dist ι} {p q r : ι}

section

omit [DecidableEq ι]

theorem Ok.eligible_of_active (ok : d.Ok) (active : d.isActive p) : d.isEligible p :=
  active.mono ok.active_le

theorem Ok.bounds (ok : d.Ok) : d.matching ≤ d.active ∧ d.active ≤ d.eligible ∧
    d.eligible ≤ d.pipes.items.length :=
  ⟨ok.matching_le, ok.active_le, ok.eligible_le⟩

theorem Ok.empty : (empty : Dist ι).Ok :=
  ⟨Nat.le_refl _, Nat.le_refl _, Nat.le_refl _, fun _ => rfl⟩

theorem Ok.unmatch (ok : d.Ok) : d.unmatch.Ok :=
  ⟨Nat.zero_le _, ok.active_le, ok.eligible_le, ok.idle⟩

theorem Ok.all (ok : d.Ok) : Ok { d with matching := d.active } :=
  ⟨Nat.le_refl _, ok.active_le, ok.eligible_le, ok.idle⟩

theorem Ok.sent (ok : d.Ok) (more : Bool) :
    Ok { d with active := if more then d.active else d.eligible, more := more } := by
  cases more with
  | true => exact ⟨ok.matching_le, ok.active_le, ok.eligible_le, nofun⟩
  | false =>
    exact ⟨Nat.le_trans ok.matching_le ok.active_le, Nat.le_refl _, ok.eligible_le,
      fun _ => rfl⟩

theorem Ok.active_sent (ok : d.Ok) (more : Bool) (active : d.isActive p) :
    isActive { d with active := if more then d.active else d.eligible, more := more } p := by
  cases more with
  | true => exact active
  | false => exact ok.eligible_of_active active

end

/-- What an operation has done to the regions and to the message in progress. -/
structure Becomes (d d' : Dist ι) (matching active eligible member : ι → Prop) : Prop where
  ok : d'.Ok
  more : d'.more = d.more
  isMatching : ∀ r, d'.isMatching r ↔ matching r
  isActive : ∀ r, d'.isActive r ↔ active r
  isEligible : ∀ r, d'.isEligible r ↔ eligible r
  mem : ∀ r, r ∈ d'.pipes.items ↔ member r

abbrev Narrows (d d' : Dist ι) (keep member : ι → Prop) : Prop :=
  d.Becomes d' (fun r => d.isMatching r ∧ keep r) (fun r => d.isActive r ∧ keep r)
    (fun r => d.isEligible r ∧ keep r) member

omit [DecidableEq ι] in
theorem Becomes.of_covered {extra : ι → Prop} (ok : d.Ok)
    (covered : ∀ r, extra r → d.isMatching r) :
    d.Becomes d (fun r => d.isMatching r ∨ extra r) d.isActive d.isEligible (· ∈ d.pipes.items) :=
  ⟨ok, rfl, fun r => (or_iff_left_of_imp (covered r)).symm, fun _ => Iff.rfl, fun _ => Iff.rfl,
    fun _ => Iff.rfl⟩

/-! ## What the operations do to the regions -/

section Operations

variable {a b : ArrayT ι} {n m i : Nat}

theorem before_push (new : p ∉ a.items) (le : n ≤ a.items.length)
    (swapped : (a.pushBack p new).swap n ((a.pushBack p new).items.length - 1) = .ok b) :
    (∀ m, m ≤ n → ∀ r, b.before m r ↔ a.before m r) ∧
      (∀ r, b.before (n + 1) r ↔ a.before n r ∨ r = p) ∧
      (∀ r, r ∈ b.items ↔ r ∈ a.items ∨ r = p) ∧ b.items.length = a.items.length + 1 := by
  have length : (a.pushBack p new).items.length - 1 = a.items.length := by simp [ArrayT.pushBack]
  rw [length] at swapped
  obtain ⟨q, _, there, -, -⟩ := ArrayT.swap_ok swapped
  have here : (a.pushBack p new).items[a.items.length]? = some p := by simp [ArrayT.pushBack]
  refine ⟨fun m less r => ?_, fun r => ?_, fun r => ?_, ?_⟩
  · rw [ArrayT.before_of_swap swapped (by omega), ArrayT.before_pushBack new (by omega)]
  · rw [ArrayT.before_grow (fun m r => ArrayT.before_swap_symm swapped here there) here there le,
      ArrayT.before_pushBack new le]
  · rw [ArrayT.mem_swap swapped]
    simp [ArrayT.pushBack]
  · rw [ArrayT.length_swap swapped]
    simp [ArrayT.pushBack]

theorem attach_becomes (ok : d.Ok) (done : d.attach p = .ok d') : p ∉ d.pipes.items ∧
    d.Becomes d' d.isMatching (fun r => d.isActive r ∨ d.more = false ∧ r = p)
      (fun r => d.isEligible r ∨ r = p) (fun r => r ∈ d.pipes.items ∨ r = p) := by
  have bounds := ok.bounds
  unfold attach at done
  split at done
  · cases done
  · rename_i new
    refine ⟨new, ?_⟩
    split at done
    · rename_i more
      obtain ⟨pipes, swapped, rfl⟩ := bind_return.mp done
      obtain ⟨less, grown, mem, length⟩ := before_push new ok.eligible_le swapped
      refine ⟨⟨ok.matching_le, by simp only; omega, by simp only; omega, by simp [more]⟩, rfl, ?_, ?_,
        grown, mem⟩
      · exact less d.matching (by omega)
      · intro r
        simpa [isActive, more] using less d.active (by omega) r
    · rename_i idle
      have idle : d.more = false := by simpa using idle
      have level := ok.idle idle
      obtain ⟨pipes, swapped, rfl⟩ := bind_return.mp done
      obtain ⟨less, grown, mem, length⟩ := before_push new (by omega) swapped
      refine ⟨⟨by simp only; omega, by simp only; omega, by simp only; omega, by simp [level]⟩, rfl,
        ?_, ?_, ?_, mem⟩
      · exact less d.matching (by omega)
      · intro r
        simpa [isActive, idle] using grown r
      · intro r
        simpa [isEligible, level] using grown r

theorem matchPipe_becomes (ok : d.Ok) (idle : d.more = false) (member : p ∈ d.pipes.items)
    (done : d.matchPipe p = .ok d') :
    d.Becomes d' (fun r => d.isMatching r ∨ d.isEligible r ∧ r = p) d.isActive d.isEligible
      (· ∈ d.pipes.items) := by
  have here := d.pipes.at_index member
  unfold matchPipe at done
  split at done
  · rename_i inside
    cases done
    apply Becomes.of_covered ok
    rintro _ ⟨-, rfl⟩
    exact (ArrayT.before_at here).mpr inside
  · split at done
    · rename_i beyond
      cases done
      apply Becomes.of_covered ok
      rintro _ ⟨eligible, rfl⟩
      have := (ArrayT.before_at here).mp eligible
      omega
    · obtain ⟨pipes, swapped, rfl⟩ := bind_return.mp done
      obtain ⟨_, q, -, there, -⟩ := ArrayT.swap_ok swapped
      have level := ok.idle idle
      have length := ArrayT.length_swap swapped
      have := ok.eligible_le
      refine ⟨⟨by simp only; omega, ok.active_le, by simp only; omega, ok.idle⟩, rfl, fun r => ?_,
        fun r => ?_, fun r => ?_, fun r => ArrayT.mem_swap swapped⟩
      · have grown : pipes.before (d.matching + 1) r ↔ d.pipes.before d.matching r ∨ r = p :=
          ArrayT.before_grow (fun m r => ArrayT.before_swap swapped here there) here there (by omega)
        refine grown.trans (or_congr Iff.rfl ⟨?_, And.right⟩)
        rintro rfl
        exact ⟨(ArrayT.before_at here).mpr (by omega), rfl⟩
      · exact ArrayT.before_of_swap (m := d.active) swapped (by omega)
      · exact ArrayT.before_of_swap (m := d.eligible) swapped (by omega)

theorem reverseFrom_becomes (ok : d.Ok) (idle : d.more = false) (enough : d.eligible = i + n)
    (behind : d.matching ≤ i) (done : reverseFrom n i d = .ok d') :
    d.Becomes d' (fun r => d.isMatching r ∨ d.isEligible r ∧ ¬ d.pipes.before i r) d.isActive
      d.isEligible (· ∈ d.pipes.items) := by
  induction n generalizing i d with
  | zero =>
    cases done
    apply Becomes.of_covered ok
    rintro r ⟨eligible, beyond⟩
    rw [isEligible, enough, Nat.add_zero] at eligible
    exact absurd eligible beyond
  | succ n ih =>
    obtain ⟨pipes, swapped, done⟩ := bind_ok.mp done
    obtain ⟨p, q, here, there, -⟩ := ArrayT.swap_ok swapped
    have level := ok.idle idle
    have length := ArrayT.length_swap swapped
    have := ok.eligible_le
    have next : Ok { d with pipes := pipes, matching := d.matching + 1 } :=
      ⟨by simp only; omega, ok.active_le, by simp only; omega, ok.idle⟩
    have rest := ih next idle (by simp only; omega) (by simp only; omega) done
    have same (m : Nat) (inside : i < m) (r : ι) : pipes.before m r ↔ d.pipes.before m r :=
      ArrayT.before_of_swap swapped (by omega)
    have grown (r : ι) : pipes.before (d.matching + 1) r ↔ d.pipes.before d.matching r ∨ r = p :=
      ArrayT.before_grow (fun m r => ArrayT.before_swap swapped here there) here there behind
    refine ⟨rest.ok, rest.more, fun r => (rest.isMatching r).trans ?_,
      fun r => (rest.isActive r).trans (same d.active (by omega) r),
      fun r => (rest.isEligible r).trans (same d.eligible (by omega) r),
      fun r => (rest.mem r).trans (ArrayT.mem_swap swapped)⟩
    simp only [isMatching, isEligible, grown, same _ (show i < d.eligible by omega),
      same _ (Nat.lt_succ_self i)]
    by_cases equal : r = p
    · subst equal
      have inside : d.pipes.before d.eligible r := (ArrayT.before_at here).mpr (by omega)
      have beyond : ¬ d.pipes.before i r := by
        rw [ArrayT.before_at here]
        omega
      simp [inside, beyond]
    · rw [ArrayT.before_succ (by rw [here]; simpa using Ne.symm equal)]
      simp [equal]

theorem reverseMatch_becomes (ok : d.Ok) (idle : d.more = false) (done : d.reverseMatch = .ok d') :
    d.Becomes d' (fun r => d.isEligible r ∧ ¬ d.isMatching r) d.isActive d.isEligible
      (· ∈ d.pipes.items) := by
  have bounds := ok.bounds
  have reversed := reverseFrom_becomes ok.unmatch idle (by simp only [unmatch]; omega)
    (Nat.zero_le _) done
  refine ⟨reversed.ok, reversed.more, fun r => (reversed.isMatching r).trans ?_,
    reversed.isActive, reversed.isEligible, reversed.mem⟩
  exact or_iff_right ArrayT.not_before_zero

theorem withdraw_spec (member : p ∈ a.items) (done : a.withdraw n p = .ok (b, m)) :
    (a.index p < n ∧ m = n - 1 ∧ b.index p = n - 1 ∨
        n ≤ a.index p ∧ m = n ∧ b.index p = a.index p) ∧
      b.items.length = a.items.length ∧ (∀ r, r ∈ b.items ↔ r ∈ a.items) ∧
      (∀ r, b.before m r ↔ a.before n r ∧ r ≠ p) ∧
      ∀ k, k ≤ a.index p ∨ n ≤ k → ∀ r, b.before k r ↔ a.before k r := by
  have here := a.at_index member
  unfold ArrayT.withdraw at done
  split at done
  · rename_i inside
    obtain ⟨a', swapped, ⟨⟩⟩ := bind_ok.mp done
    obtain ⟨_, _, first, _, after⟩ := ArrayT.swap_ok swapped
    have moved : b.items[n - 1]? = some p := by rw [after, if_pos rfl, ← first, here]
    refine ⟨.inl ⟨inside, rfl, b.indexed _ _ moved⟩, ArrayT.length_swap swapped,
      fun r => ArrayT.mem_swap swapped, fun r => ArrayT.before_shrink swapped here inside, ?_⟩
    intro k outside r
    exact ArrayT.before_of_swap swapped (by omega)
  · rename_i outside
    cases done
    refine ⟨.inr ⟨by omega, rfl, rfl⟩, rfl, fun _ => Iff.rfl, fun r => ?_, fun _ _ _ => Iff.rfl⟩
    refine ⟨fun inside => ⟨inside, ?_⟩, And.left⟩
    rintro rfl
    exact outside ((ArrayT.before_at here).mp inside)

theorem withdraw_becomes {a₁ a₂ a₃ : ArrayT ι} {matching active eligible : Nat} (ok : d.Ok)
    (member : p ∈ d.pipes.items) (first : d.pipes.withdraw d.matching p = .ok (a₁, matching))
    (second : a₁.withdraw d.active p = .ok (a₂, active))
    (third : a₂.withdraw d.eligible p = .ok (a₃, eligible)) :
    d.Narrows ⟨a₃, matching, active, eligible, d.more⟩ (· ≠ p) (· ∈ d.pipes.items) ∧
      eligible ≤ a₃.index p ∧
      ∀ k, k ≤ d.pipes.index p → ∀ r, a₃.before k r ↔ d.pipes.before k r := by
  have bounds := ok.bounds
  obtain ⟨at₁, length₁, mem₁, out₁, keep₁⟩ := withdraw_spec member first
  obtain ⟨at₂, length₂, mem₂, out₂, keep₂⟩ := withdraw_spec ((mem₁ p).mpr member) second
  obtain ⟨at₃, length₃, mem₃, out₃, keep₃⟩ :=
    withdraw_spec ((mem₂ p).mpr ((mem₁ p).mpr member)) third
  refine ⟨⟨⟨by simp only; omega, by simp only; omega, by simp only; omega, fun idle => ?_⟩, rfl,
    fun r => ?_, fun r => ?_, fun r => ?_, fun r => ?_⟩, by omega, fun k le r => ?_⟩
  · have := ok.idle idle
    simp only
    omega
  · exact (keep₃ matching (by omega) r).trans ((keep₂ matching (by omega) r).trans (out₁ r))
  · have before := (keep₃ active (by omega) r).trans (out₂ r)
    rwa [keep₁ d.active (by omega)] at before
  · have before := out₃ r
    rwa [keep₂ d.eligible (by omega), keep₁ d.eligible (by omega)] at before
  · rw [mem₃, mem₂, mem₁]
  · rw [keep₃ k (by omega), keep₂ k (by omega), keep₁ k (.inl le)]

theorem pipeTerminated_becomes (ok : d.Ok) (member : p ∈ d.pipes.items)
    (done : d.pipeTerminated p = .ok d') :
    d.Narrows d' (· ≠ p) (fun r => r ∈ d.pipes.items ∧ r ≠ p) := by
  obtain ⟨⟨a₁, matching⟩, first, done⟩ := bind_ok.mp done
  obtain ⟨⟨a₂, active⟩, second, done⟩ := bind_ok.mp done
  obtain ⟨⟨a₃, eligible⟩, third, done⟩ := bind_ok.mp done
  obtain ⟨a₄, erased, rfl⟩ := bind_return.mp done
  obtain ⟨out, behind, -⟩ := withdraw_becomes ok member first second third
  have there : p ∈ a₃.items := (out.mem p).mpr member
  have shorter := ArrayT.length_erase there erased
  have bound := a₃.index_lt there
  have kept (k : Nat) (le : k ≤ eligible) (r : ι) : a₄.before k r ↔ a₃.before k r :=
    ArrayT.before_erase there erased (by omega)
  have ok' := out.ok
  refine ⟨⟨ok'.matching_le, ok'.active_le, by simp only; omega, ok'.idle⟩, rfl, fun r => ?_,
    fun r => ?_, fun r => ?_, fun r => ?_⟩
  · exact (kept _ (Nat.le_trans ok'.matching_le ok'.active_le) r).trans (out.isMatching r)
  · exact (kept _ ok'.active_le r).trans (out.isActive r)
  · exact (kept _ (Nat.le_refl _) r).trans (out.isEligible r)
  · rw [ArrayT.mem_erase there erased, out.mem]

theorem refuse_becomes (ok : d.Ok) (matching : d.isMatching p) (done : d.refuse p = .ok d') :
    d.Narrows d' (· ≠ p) (· ∈ d.pipes.items) ∧ d'.matching = d.matching - 1 ∧
      ∀ k, k ≤ d.pipes.index p → ∀ r, d'.pipes.before k r ↔ d.pipes.before k r := by
  have bounds := ok.bounds
  have member := matching.mem
  have inside := (ArrayT.before_index member).mp matching
  obtain ⟨a₁, first, done⟩ := bind_ok.mp done
  obtain ⟨a₂, second, done⟩ := bind_ok.mp done
  obtain ⟨a₃, third, rfl⟩ := bind_return.mp done
  -- it is in each region, so that every swap takes it out of one
  have out {a b : ArrayT ι} {n : Nat} (inside : a.index p < n)
      (swapped : a.swap (a.index p) (n - 1) = .ok b) : a.withdraw n p = .ok (b, n - 1) := by
    rw [ArrayT.withdraw, if_pos inside, swapped]
    rfl
  have first := out inside first
  obtain ⟨at₁, -, mem₁, -, -⟩ := withdraw_spec member first
  have second := out (by omega) second
  obtain ⟨at₂, -, -, -, -⟩ := withdraw_spec ((mem₁ p).mpr member) second
  have place : a₂.index p = d.active - 1 := by omega
  rw [← place] at third
  obtain ⟨becomes, -, front⟩ := withdraw_becomes ok member first second (out (by omega) third)
  exact ⟨becomes, rfl, front⟩

theorem activated_becomes (ok : d.Ok) (member : p ∈ d.pipes.items) (outside : ¬ d.isEligible p)
    (done : d.activated p = .ok d') :
    d.Becomes d' d.isMatching (fun r => d.isActive r ∨ d.more = false ∧ r = p)
      (fun r => d.isEligible r ∨ r = p) (· ∈ d.pipes.items) := by
  have bounds := ok.bounds
  have here := d.pipes.at_index member
  have bound := d.pipes.index_lt member
  rw [isEligible, ArrayT.before_index member] at outside
  obtain ⟨d₁, first, second⟩ := bind_ok.mp done
  unfold makeEligible at first
  rw [if_pos (by omega)] at first
  obtain ⟨a₁, swapped, rfl⟩ := bind_return.mp first
  obtain ⟨_, q, -, there, -⟩ := ArrayT.swap_ok swapped
  have length := ArrayT.length_swap swapped
  have keep (k : Nat) (le : k ≤ d.eligible) (r : ι) : a₁.before k r ↔ d.pipes.before k r :=
    ArrayT.before_of_swap swapped (by omega)
  have grown (r : ι) : a₁.before (d.eligible + 1) r ↔ d.pipes.before d.eligible r ∨ r = p :=
    ArrayT.before_grow (fun m r => ArrayT.before_swap swapped here there) here there (by omega)
  have mem (r : ι) : r ∈ a₁.items ↔ r ∈ d.pipes.items := ArrayT.mem_swap swapped
  unfold makeActive at second
  cases more : d.more with
  | true =>
    simp only [more] at second
    cases second
    refine ⟨⟨ok.matching_le, by simp only; omega, by simp only; omega, nofun⟩, more.symm,
      keep d.matching (by omega), fun r => ?_, grown, mem⟩
    simpa [isActive] using keep d.active (by omega) r
  | false =>
    have level := ok.idle more
    have room : d.active < a₁.items.length := by omega
    rw [if_pos (by simpa [more] using room)] at second
    obtain ⟨a₂, again, rfl⟩ := bind_return.mp second
    have length₂ : a₂.items.length = a₁.items.length := ArrayT.length_swap again
    have still (k : Nat) (r : ι) : a₂.before k r ↔ a₁.before k r :=
      ArrayT.before_of_swap again (by simp only; omega)
    refine ⟨⟨by simp only; omega, by simp only; omega, by simp only; omega, by simp [level]⟩, rfl,
      fun r => (still _ r).trans (keep d.matching (by omega) r), fun r => ?_,
      fun r => (still _ r).trans (grown r), fun r => (ArrayT.mem_swap again).trans (mem r)⟩
    have same := (still _ r).trans (grown r)
    simpa [isActive, level] using same

/-- The same call for any pipe, as `xsub_t` can make it: in the middle of a message it moves no
    pipe in front of the one that is named. -/
theorem activated_ok (ok : d.Ok) (done : d.activated p = .ok d') :
    d'.Ok ∧ d'.more = d.more ∧ (∀ r, r ∈ d'.pipes.items ↔ r ∈ d.pipes.items) ∧
      (d.more = true → d'.matching = d.matching ∧ d'.active = d.active ∧
        ∀ k, k ≤ d.pipes.index p → k ≤ d.eligible →
          ∀ r, d'.pipes.before k r ↔ d.pipes.before k r) := by
  have bounds := ok.bounds
  obtain ⟨d₁, first, second⟩ := bind_ok.mp done
  have half : d₁.more = d.more ∧ d₁.matching = d.matching ∧ d₁.active = d.active ∧
      d.eligible ≤ d₁.eligible ∧ d₁.eligible ≤ d.eligible + 1 ∧
      d₁.eligible ≤ d₁.pipes.items.length ∧
      (d.eligible < d₁.pipes.items.length → d₁.eligible = d.eligible + 1) ∧
      (∀ r, r ∈ d₁.pipes.items ↔ r ∈ d.pipes.items) ∧
      ∀ k, k ≤ d.pipes.index p → k ≤ d.eligible →
        ∀ r, d₁.pipes.before k r ↔ d.pipes.before k r := by
    unfold makeEligible at first
    split at first
    · obtain ⟨a₁, swapped, rfl⟩ := bind_return.mp first
      have length := ArrayT.length_swap swapped
      exact ⟨rfl, rfl, rfl, by simp only; omega, Nat.le_refl _, by simp only; omega, fun _ => rfl,
        fun r => ArrayT.mem_swap swapped,
        fun k le less r => ArrayT.before_of_swap swapped (by omega)⟩
    · cases first
      exact ⟨rfl, rfl, rfl, Nat.le_refl _, by omega, by omega, by omega, fun _ => Iff.rfl,
        fun _ _ _ _ => Iff.rfl⟩
  obtain ⟨more, matching, active, low, high, within, grown, mem, keep⟩ := half
  unfold makeActive at second
  split at second
  · rename_i test
    obtain ⟨idle, room⟩ : d₁.more = false ∧ d₁.active < d₁.pipes.items.length := by
      simpa using test
    obtain ⟨a₂, swapped, rfl⟩ := bind_return.mp second
    have level := ok.idle (more ▸ idle)
    have length := ArrayT.length_swap swapped
    refine ⟨⟨by simp only; omega, by simp only; omega, by simp only; omega, fun _ => ?_⟩, more,
      fun r => (ArrayT.mem_swap swapped).trans (mem r), fun midway => ?_⟩
    · simp only
      omega
    · rw [more] at idle
      simp [idle] at midway
  · rename_i test
    obtain rfl := Except.ok.inj second
    have full (idle : d₁.more = false) : d₁.pipes.items.length ≤ d₁.active := by
      by_contra room
      exact test (by simp [idle]; omega)
    refine ⟨⟨by omega, by omega, within, fun idle => ?_⟩, more, mem,
      fun _ => ⟨matching, active, keep⟩⟩
    have := full idle
    omega

end Operations

/-! ## A frame is offered once to each matching pipe -/

section Loop

variable {pair pair' : ι → Pair} {msg : Msg} {lock b : Bool} {n i : Nat}

structure Usable (d : Dist ι) (pair : ι → Pair) : Prop where
  sound : ∀ r, (pair r).Sound
  stays : ∀ r ∈ d.pipes.items, ((pair r).pipe .first).deleted = false

theorem refuse_total (ok : d.Ok) (matching : d.isMatching p) : ∃ d', d.refuse p = .ok d' := by
  have bounds := ok.bounds
  have member := matching.mem
  have inside := (ArrayT.before_index member).mp matching
  refine bind_total (d.pipes.swap_total (by omega) (by omega)) fun a₁ first => ?_
  have length := ArrayT.length_swap first
  have bound := a₁.index_lt ((ArrayT.mem_swap first).mpr member)
  refine bind_total (a₁.swap_total bound (by omega)) fun a₂ second => ?_
  have length' := ArrayT.length_swap second
  exact bind_total (a₂.swap_total (by omega) (by omega)) fun _ _ => ⟨_, rfl⟩

theorem write_offered (msg : Msg) (lock : Bool) (ok : d.Ok) (matching : d.isMatching p)
    (usable : d.Usable pair) :
    ∃ b d' t, d.write pair p msg lock = .ok (b, d', update pair p t) ∧ (pair p).Offered msg b t ∧
      (b = true → d' = d) ∧ (b = false → d.refuse p = .ok d') := by
  have sound := usable.sound p
  obtain ⟨c, s, ends, writing⟩ := sound.write (usable.stays p matching.mem) msg lock
  rw [Dist.write, ends, ok_bind]
  cases c with
  | true =>
    cases more : msg.more with
    | true => exact ⟨true, d, s, rfl, .more writing more, fun _ => rfl, nofun⟩
    | false =>
      obtain ⟨v, flushed, flushing⟩ := (writing.sound sound).flush (e := .first)
      refine ⟨true, d, v, ?_, .last writing more flushing, fun _ => rfl, nofun⟩
      simp [flushed]
  | false =>
    obtain ⟨d', refused⟩ := refuse_total ok matching
    refine ⟨false, d', s, ?_, .refused writing, nofun, fun _ => refused⟩
    simp [refused]

/-- What `distribute` has done when the pipes of `todo` were still to be tried. -/
structure Distributed (msg : Msg) (todo : ι → Prop) (d : Dist ι) (pair : ι → Pair) (d' : Dist ι)
    (pair' : ι → Pair) : Prop where
  ok : d'.Ok
  more : d'.more = d.more
  mem : ∀ r, r ∈ d'.pipes.items ↔ r ∈ d.pipes.items
  /-- A pipe stays in its regions if it took the frame. -/
  tried : ∀ r, todo r → ∃ b, (pair r).Offered msg b (pair' r) ∧ (d'.isMatching r ↔ b = true) ∧
    (d'.isActive r ↔ b = true) ∧ (d'.isEligible r ↔ b = true)
  others : ∀ r, ¬ todo r → pair' r = pair r ∧ (d'.isMatching r ↔ d.isMatching r) ∧
    (d'.isActive r ↔ d.isActive r) ∧ (d'.isEligible r ↔ d.isEligible r)

theorem Distributed.cons {todo todo' : ι → Prop} {d₁ : Dist ι} {t : Pair}
    (step : Distributed msg todo' d₁ (update pair p t) d' pair') (offered : (pair p).Offered msg b t)
    (becomes : d.Narrows d₁ (fun r => r = p → b = true) (· ∈ d.pipes.items))
    (ok : d.Ok) (matching : d.isMatching p) (due : todo p) (gone : ¬ todo' p)
    (rest : ∀ r, r ≠ p → (todo' r ↔ todo r)) : Distributed msg todo d pair d' pair' := by
  have active : d.isActive p := matching.mono ok.matching_le
  have eligible := ok.eligible_of_active active
  refine ⟨step.ok, step.more.trans becomes.more, fun r => (step.mem r).trans (becomes.mem r),
    fun r now => ?_, fun r skipped => ?_⟩
  · by_cases equal : r = p
    · subst equal
      obtain ⟨kept, matching', active', eligible'⟩ := step.others r gone
      rw [kept, update_self]
      refine ⟨b, offered, ?_, ?_, ?_⟩
      · simp [matching', becomes.isMatching, matching]
      · simp [active', becomes.isActive, active]
      · simp [eligible', becomes.isEligible, eligible]
    · simpa [update_of_ne equal] using step.tried r ((rest r equal).mpr now)
  · have equal : r ≠ p := by
      rintro rfl
      exact skipped due
    obtain ⟨kept, matching', active', eligible'⟩ := step.others r (mt (rest r equal).mp skipped)
    rw [update_of_ne equal] at kept
    refine ⟨kept, matching'.trans ?_, active'.trans ?_, eligible'.trans ?_⟩
    · simp [becomes.isMatching, equal]
    · simp [becomes.isActive, equal]
    · simp [becomes.isEligible, equal]

def triedFrom (msg : Msg) (tryLock : Bool) : Nat → Nat → Dist ι → (ι → Pair) → List ι
  | 0, _, _, _ => []
  | n + 1, i, d, pair =>
    match d.pipes.items[i]? with
    | none => []
    | some pipe => pipe :: match d.write pair pipe msg tryLock with
      | .ok (written, d, pair) => triedFrom msg tryLock n (if written then i + 1 else i) d pair
      | .error _ => []

theorem write_onward (msg : Msg) (lock : Bool) (ok : d.Ok) (enough : d.matching = i + (n + 1))
    (here : d.pipes.items[i]? = some p) (usable : d.Usable pair) :
    ∃ b d' t, d.write pair p msg lock = .ok (b, d', update pair p t) ∧ (pair p).Offered msg b t ∧
      d.Narrows d' (fun r => r = p → b = true) (· ∈ d.pipes.items) ∧
      d'.matching = (if b then i + 1 else i) + n ∧ d'.Usable (update pair p t) ∧
      ∀ r, d'.isMatching r ∧ ¬ d'.pipes.before (if b then i + 1 else i) r ↔
        (d.isMatching r ∧ ¬ d.pipes.before i r) ∧ r ≠ p := by
  have matching : d.isMatching p := (ArrayT.before_at here).mpr (by omega)
  obtain ⟨b, d', t, done, offered, same, refused⟩ := write_offered msg lock ok matching usable
  refine ⟨b, d', t, done, offered, ?_⟩
  have usable' : d.Usable (update pair p t) :=
    ⟨(forall_update_iff pair fun _ s => s.Sound).mpr
        ⟨offered.sound (usable.sound p), fun r _ => usable.sound r⟩,
      (forall_update_iff pair fun r s => r ∈ d.pipes.items → (s.pipe .first).deleted = false).mpr
        ⟨fun member => offered.deleted.trans (usable.stays p member), fun r _ => usable.stays r⟩⟩
  cases b with
  | true =>
    obtain rfl := same rfl
    refine ⟨⟨ok, rfl, by simp, by simp, by simp, fun _ => Iff.rfl⟩, by simp only [if_true]; omega,
      usable', fun r => ?_⟩
    by_cases equal : r = p
    · subst equal
      simp [ArrayT.before_at here]
    · rw [if_pos rfl, ArrayT.before_succ (by rw [here]; simpa using Ne.symm equal),
        and_iff_left equal]
  | false =>
    obtain ⟨becomes, fewer, front⟩ := refuse_becomes ok matching (refused rfl)
    have place : d.pipes.index p = i := d.pipes.indexed i p here
    refine ⟨by simpa using becomes, by simp only [Bool.false_eq_true, if_false]; omega,
      ⟨usable'.sound, fun r member => usable'.stays r ((becomes.mem r).mp member)⟩, fun r => ?_⟩
    rw [if_neg (by decide), front i (by omega), becomes.isMatching, and_right_comm]

theorem distributeFrom_distributed (msg : Msg) (lock : Bool) (ok : d.Ok)
    (enough : d.matching = i + n) (usable : d.Usable pair) :
    ∃ d' pair', distributeFrom msg lock n i d pair = .ok (d', pair') ∧
      Distributed msg (fun r => d.isMatching r ∧ ¬ d.pipes.before i r) d pair d' pair' ∧
      (triedFrom msg lock n i d pair).Nodup ∧
      ∀ r, r ∈ triedFrom msg lock n i d pair ↔ d.isMatching r ∧ ¬ d.pipes.before i r := by
  induction n generalizing i d pair with
  | zero =>
    have none_left (r : ι) : ¬ (d.isMatching r ∧ ¬ d.pipes.before i r) := by
      simp [isMatching, enough]
    exact ⟨d, pair, rfl, ⟨ok, rfl, fun _ => Iff.rfl, fun r now => absurd now (none_left r),
      fun _ _ => ⟨rfl, Iff.rfl, Iff.rfl, Iff.rfl⟩⟩, .nil, by simp [triedFrom, none_left]⟩
  | succ n ih =>
    have bounds := ok.bounds
    obtain ⟨p, here⟩ : ∃ p, d.pipes.items[i]? = some p := ⟨_, List.getElem?_eq_getElem (by omega)⟩
    have matching : d.isMatching p := (ArrayT.before_at here).mpr (by omega)
    have beyond : ¬ d.pipes.before i p := by
      rw [ArrayT.before_at here]
      omega
    obtain ⟨b, d₁, t, done, offered, becomes, enough', usable', todo⟩ :=
      write_onward msg lock ok enough here usable
    obtain ⟨d', pair', ends, step, nodup, rest⟩ := ih becomes.ok enough' usable'
    simp only [distributeFrom, triedFrom, here, done, ok_bind, List.nodup_cons, List.mem_cons, rest,
      todo]
    refine ⟨d', pair', ends, ?_, ⟨fun left => left.2 rfl, nodup⟩, fun r => ?_⟩
    · exact step.cons offered becomes ok matching ⟨matching, beyond⟩
        (fun left => ((todo p).mp left).2 rfl) fun r other => (todo r).trans (and_iff_left other)
    · by_cases equal : r = p
      · subst equal
        simp [matching, beyond]
      · simp [equal]

/-- `distribute` tries each matching pipe once, and no other. -/
def Tries (d : Dist ι) (pair : ι → Pair) (msg : Msg) (tryLock : Bool) : Prop :=
  let tried := triedFrom msg tryLock d.matching 0 d pair
  tried.Nodup ∧ ∀ r, r ∈ tried ↔ d.isMatching r

theorem distribute_tries (msg : Msg) (lock : Bool) (ok : d.Ok) (usable : d.Usable pair) :
    ∃ d' pair', d.distribute pair msg lock = .ok (d', pair') ∧
      Distributed msg d.isMatching d pair d' pair' ∧ d.Tries pair msg lock := by
  have same (r : ι) : (d.isMatching r ∧ ¬ d.pipes.before 0 r) ↔ d.isMatching r :=
    and_iff_left ArrayT.not_before_zero
  have all := distributeFrom_distributed msg lock ok (Nat.zero_add _).symm usable
  simp only [same] at all
  exact all

theorem distribute_distributed (ok : d.Ok) (sound : ∀ r, (pair r).Sound)
    (stays : ∀ r ∈ d.pipes.items, ((pair r).pipe .first).deleted = false)
    (done : d.distribute pair msg lock = .ok (d', pair')) :
    Distributed msg d.isMatching d pair d' pair' := by
  obtain ⟨_, _, done', all, -⟩ := distribute_tries msg lock ok ⟨sound, stays⟩
  cases done.symm.trans done'
  exact all

end Loop

/-! ## Sequences of calls -/

section Calls

inductive Call (ι : Type) where
  | attach (pipe : ι)
  | matchPipe (pipe : ι)
  | reverseMatch
  | unmatch
  | sendToMatching (pair : ι → Pair) (msg : Msg) (tryLock : Bool)
  | sendToAll (pair : ι → Pair) (msg : Msg) (tryLock : Bool)
  | activated (pipe : ι)
  | pipeTerminated (pipe : ι)

def call (d : Dist ι) : Call ι → Except Fault (Dist ι)
  | .attach pipe => d.attach pipe
  | .matchPipe pipe => d.matchPipe pipe
  | .reverseMatch => d.reverseMatch
  | .unmatch => .ok d.unmatch
  | .sendToMatching pair msg tryLock => (d.sendToMatching pair msg tryLock).map Prod.fst
  | .sendToAll pair msg tryLock => (d.sendToAll pair msg tryLock).map Prod.fst
  | .activated pipe => d.activated pipe
  | .pipeTerminated pipe => d.pipeTerminated pipe

/-- Pipes are matched between messages. The state of the pipes, and so what they refuse, is
    another one in every call. -/
def Possible (d : Dist ι) : Call ι → Prop
  | .attach pipe => pipe ∉ d.pipes.items
  | .matchPipe pipe => pipe ∈ d.pipes.items ∧ d.more = false
  | .reverseMatch => d.more = false
  | .unmatch => True
  | .sendToMatching pair _ _ | .sendToAll pair _ _ => d.Usable pair
  | .activated pipe => pipe ∈ d.pipes.items ∧ ¬ d.isEligible pipe
  | .pipeTerminated pipe => pipe ∈ d.pipes.items

/-- `distribute` offers the frame to each matching pipe, once, and changes no other pipe. -/
def Sends (d : Dist ι) (pair : ι → Pair) (msg : Msg) (tryLock : Bool) (d' : Dist ι) : Prop :=
  ∃ d₁ pair', d.distribute pair msg tryLock = .ok (d₁, pair') ∧
    d.sendToMatching pair msg tryLock = .ok (d', pair') ∧
    Distributed msg d.isMatching d pair d₁ pair' ∧ d.Tries pair msg tryLock

def Meets (d : Dist ι) : Call ι → Dist ι → Prop
  | .reverseMatch, d' => ∀ r, d'.isMatching r ↔ d.isEligible r ∧ ¬ d.isMatching r
  | .sendToMatching pair msg tryLock, d' => d.Sends pair msg tryLock d'
  | .sendToAll pair msg tryLock, d' => { d with matching := d.active }.Sends pair msg tryLock d'
  | _, _ => True

variable {pair : ι → Pair} {msg : Msg} {lock : Bool} {i n : Nat} {a : Call ι}

theorem sendToMatching_sends (ok : d.Ok) (usable : d.Usable pair) :
    ∃ d', (d.sendToMatching pair msg lock).map Prod.fst = .ok d' ∧ d'.Ok ∧
      d.Sends pair msg lock d' := by
  obtain ⟨d₁, pair₁, ends, after, tries⟩ := distribute_tries msg lock ok usable
  obtain ⟨d', sent, ok'⟩ : ∃ d', d.sendToMatching pair msg lock = .ok (d', pair₁) ∧ d'.Ok := by
    rw [sendToMatching, ends]
    exact ⟨_, rfl, after.ok.sent msg.more⟩
  exact ⟨d', by rw [sent]; rfl, ok', d₁, pair₁, ends, sent, after, tries⟩

theorem reverseFrom_total (enough : i + n ≤ d.pipes.items.length) (behind : d.matching ≤ i) :
    ∃ d', reverseFrom n i d = .ok d' := by
  induction n generalizing i d with
  | zero => exact ⟨d, rfl⟩
  | succ n ih =>
    refine bind_total (d.pipes.swap_total (by omega) (by omega)) fun pipes swapped => ?_
    have := ArrayT.length_swap swapped
    exact ih (by simp only; omega) (by simp only; omega)

theorem withdraw_total {a : ArrayT ι} (le : n ≤ a.items.length) :
    ∃ r, a.withdraw n p = .ok r := by
  unfold ArrayT.withdraw
  split
  · exact bind_total (a.swap_total (by omega) (by omega)) fun _ _ => ⟨_, rfl⟩
  · exact ⟨_, rfl⟩

theorem call_meets (ok : d.Ok) (possible : d.Possible a) :
    ∃ d', d.call a = .ok d' ∧ d'.Ok ∧ d.Meets a d' := by
  have bounds := ok.bounds
  cases a with
  | attach p =>
    obtain ⟨d', done⟩ : ∃ d', d.attach p = .ok d' := by
      have longer : (d.pipes.pushBack p possible).items.length = d.pipes.items.length + 1 := by
        simp [ArrayT.pushBack]
      unfold attach
      rw [dif_neg possible]
      split
      all_goals exact bind_total (ArrayT.swap_total _ (by omega) (by omega)) fun _ _ => ⟨_, rfl⟩
    exact ⟨d', done, (attach_becomes ok done).2.ok, trivial⟩
  | matchPipe p =>
    obtain ⟨d', done⟩ : ∃ d', d.matchPipe p = .ok d' := by
      unfold matchPipe
      split
      · exact ⟨d, rfl⟩
      · split
        · exact ⟨d, rfl⟩
        · exact bind_total (d.pipes.swap_total (by omega) (by omega)) fun _ _ => ⟨_, rfl⟩
    exact ⟨d', done, (matchPipe_becomes ok possible.2 possible.1 done).ok, trivial⟩
  | reverseMatch =>
    obtain ⟨d', done⟩ : ∃ d', d.reverseMatch = .ok d' :=
      reverseFrom_total (by simp only [unmatch]; omega) (Nat.zero_le _)
    have becomes := reverseMatch_becomes ok possible done
    exact ⟨d', done, becomes.ok, becomes.isMatching⟩
  | unmatch => exact ⟨_, rfl, ok.unmatch, trivial⟩
  | sendToMatching pair msg lock => exact sendToMatching_sends ok possible
  | sendToAll pair msg lock => exact sendToMatching_sends ok.all ⟨possible.sound, possible.stays⟩
  | activated p =>
    obtain ⟨d', done⟩ : ∃ d', d.activated p = .ok d' := by
      have inside := d.pipes.index_lt possible.1
      have beyond : d.eligible < d.pipes.items.length := by
        have := mt (ArrayT.before_index possible.1).mpr possible.2
        omega
      rw [activated, makeEligible, if_pos beyond]
      obtain ⟨pipes, swapped⟩ := d.pipes.swap_total inside beyond
      have length := ArrayT.length_swap swapped
      rw [swapped]
      simp only [ok_bind, makeActive]
      split
      · exact bind_total (pipes.swap_total (by omega) (by omega)) fun _ _ => ⟨_, rfl⟩
      · exact ⟨_, rfl⟩
    exact ⟨d', done, (activated_becomes ok possible.1 possible.2 done).ok, trivial⟩
  | pipeTerminated p =>
    obtain ⟨d', done⟩ : ∃ d', d.pipeTerminated p = .ok d' := by
      refine bind_total (withdraw_total (by omega)) fun r₁ first => ?_
      obtain ⟨-, length₁, mem₁, -⟩ := withdraw_spec possible first
      refine bind_total (withdraw_total (by omega)) fun r₂ second => ?_
      obtain ⟨-, length₂, mem₂, -⟩ := withdraw_spec ((mem₁ p).mpr possible) second
      refine bind_total (withdraw_total (by omega)) fun r₃ third => ?_
      obtain ⟨-, -, mem₃, -⟩ := withdraw_spec ((mem₂ p).mpr ((mem₁ p).mpr possible)) third
      have there : p ∈ r₃.1.items := by rwa [mem₃, mem₂, mem₁]
      exact bind_total (ArrayT.erase_total there) fun _ _ => ⟨_, rfl⟩
    exact ⟨d', done, (pipeTerminated_becomes ok possible done).ok, trivial⟩

/-- Every call succeeds and does what is asked of it, and the regions stay in order. -/
theorem regions_stay_sound {d : Dist ι} (reached : Reaches call Possible .empty d) :
    (d.matching ≤ d.active ∧ d.active ≤ d.eligible ∧ d.eligible ≤ d.pipes.items.length) ∧
      (d.more = false → d.active = d.eligible) ∧
      (∀ i p, d.pipes.items[i]? = some p → d.pipes.index p = i) ∧
      ∀ a, d.Possible a → ∃ d', d.call a = .ok d' ∧ d.Meets a d' := by
  have ok : d.Ok := by
    refine reached.invariant .empty fun d a d' ok possible done => ?_
    obtain ⟨_, done', ok', -⟩ := call_meets ok possible
    cases done.symm.trans done'
    exact ok'
  refine ⟨ok.bounds, ok.idle, d.pipes.indexed, fun a possible => ?_⟩
  obtain ⟨d', done, -, meets⟩ := call_meets ok possible
  exact ⟨d', done, meets⟩

theorem regions_stay_sound_two : ∃ d : Dist Nat, d.pipes.items = [1, 0] ∧ d.matching = 1 ∧
    ∃ d', d.call .reverseMatch = .ok d' ∧ d.Meets .reverseMatch d' := by
  have one : Reaches call Possible (.empty : Dist Nat) _ :=
    .next .start (a := .attach 0) List.not_mem_nil rfl
  have two := one.next (a := Call.attach 1) (show 1 ∉ [0] by decide) rfl
  have run := two.next (a := Call.matchPipe 1) ⟨show 1 ∈ [0, 1] by decide, rfl⟩ rfl
  exact ⟨_, rfl, rfl, (regions_stay_sound run).2.2.2 .reverseMatch rfl⟩

end Calls

end Dist

end Zmq
