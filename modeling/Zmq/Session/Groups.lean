import Zmq.Session.Classes
import Zmq.Session.Faults

/-! # Groups of RADIO and DISH

How the sessions of RADIO and DISH sockets change the frames of their peer.
-/

namespace Zmq

open Lib

variable {μ : Type} {m : Msg} {type : MsgType}

namespace RadioSession

def join : List UInt8 := [74, 79, 73, 78]

def leave : List UInt8 := [76, 69, 65, 86, 69]

def named (type : MsgType) (name : Nat) (m : Msg) : Msg :=
  { type := type, group := ((m.data.drop name).take (groupLength m.size name)).takeWhile (· != 0) }

/-- What the socket gets for a command of the peer. -/
def joinLeave (m : Msg) : Msg :=
  if m.isNamed join then named .join 5 m else if m.isNamed leave then named .leave 6 m else m

def Short (m : Msg) : Prop :=
  (m.isNamed join = true → groupLength m.size 5 ≤ 255) ∧
    (m.isNamed leave = true → groupLength m.size 6 ≤ 255)
  deriving Decidable

theorem pushJoinLeave_eq {name : Nat} (short : groupLength m.size name ≤ 255)
    (s : RadioSession μ) : pushJoinLeave type name m s = base (named type name m) s := by
  have set : ({ type := type } : Msg).setGroup (m.data.drop name) (groupLength m.size name) =
      some (named type name m) := if_neg (Nat.not_lt.mpr short)
  rw [pushJoinLeave, set]

theorem named_eq {n group : List UInt8} (length : group.length ≤ 255) (clean : 0 ∉ group)
    (short : n.length ≤ 255) (data : m.data = n ++ group) :
    named type n.length m = { type := type, group := group } := by
  have size : groupLength m.size n.length = group.length := by
    rw [Msg.size, data, List.length_append, groupLength, BitVec.toInt_eq_toNat_of_lt]
    all_goals
      simp only [BitVec.toNat_ofNat]
      omega
  rw [named, size, data, List.drop_left, List.take_length, List.takeWhile_eq_self_iff.mpr]
  intro c member
  exact bne_iff_ne.mpr fun zero => clean (zero ▸ member)

theorem pushJoinLeave_long {name : Nat} (long : ¬ groupLength m.size name ≤ 255)
    (s : RadioSession μ) : pushJoinLeave type name m s = .error (.assertion .radioPushMsg) := by
  have set : ({ type := type } : Msg).setGroup (m.data.drop name) (groupLength m.size name) = none :=
    if_pos (Nat.lt_of_not_le long)
  rw [pushJoinLeave, set]
  rfl

/-- `session_base_t::push_msg` fails in the pipe, and not in this assertion. -/
theorem base_ne (m : Msg) (s : RadioSession μ) :
    base m s ≠ .error (.assertion .radioPushMsg) := by
  have safe : wp (·.ofPipe = true) (Session.pushMsg m) _ s.session :=
    Session.safe_pushMsg (fun _ => id) m s.session trivial
  intro failed
  simp only [base, zoom] at failed
  cases run : Session.pushMsg m s.session with
  | ok r => simp [run] at failed
  | error e =>
    obtain rfl : e = .assertion .radioPushMsg := by simpa [run] using failed
    simp [wp, run, Fault.ofPipe] at safe

theorem pushMsg_short (command : m.command = true) (short : Short m) (s : RadioSession μ) :
    pushMsg m s = base (joinLeave m) s := by
  rw [pushMsg, if_pos command, joinLeave]
  change (if m.isNamed join then _ else if m.isNamed leave then _ else _ : Program _ _ _) s = _
  split
  · exact pushJoinLeave_eq (short.1 ‹_›) s
  · split
    · exact pushJoinLeave_eq (short.2 ‹_›) s
    · rfl

theorem pushMsg_long (command : m.command = true) (long : ¬ Short m) (s : RadioSession μ) :
    pushMsg m s = .error (.assertion .radioPushMsg) := by
  have apart (here : m.isNamed join = true) : ¬ m.isNamed leave = true :=
    Bool.eq_false_iff.mp (Msg.isNamed_only [join] (by simpa using here) (by decide) (by decide))
  rw [pushMsg, if_pos command]
  change (if m.isNamed join then _ else if m.isNamed leave then _ else _ : Program _ _ _) s = _
  split
  · rename_i joins
    exact pushJoinLeave_long (fun short => long ⟨fun _ => short, fun here => absurd here (apart joins)⟩) s
  · rename_i other
    split
    · exact pushJoinLeave_long (fun short => long ⟨fun here => absurd here other, fun _ => short⟩) s
    · exact absurd ⟨fun here => absurd here other, fun here => absurd here ‹_›⟩ long

/-- A command fails the assertion if and only if it is a JOIN or LEAVE with a group that is too
    long. Any other becomes what `session_base_t::push_msg` is called with, also when it is tried
    again, and a JOIN or LEAVE keeps its group. -/
theorem joins_and_leaves (command : m.command = true) (s : RadioSession μ) :
    (pushMsg m s = .error (.assertion .radioPushMsg) ↔ ¬ Short m) ∧
    (Short m → pushMsg m s = base (joinLeave m) s ∧
      pushMsg (joinLeave m) s = base (joinLeave m) s) ∧
    ∀ group : List UInt8, group.length ≤ 255 → 0 ∉ group →
      (m.data = 4 :: join ++ group → joinLeave m = { type := .join, group := group }) ∧
      (m.data = 5 :: leave ++ group → joinLeave m = { type := .leave, group := group }) := by
  refine ⟨⟨fun failed short => ?_, fun long => pushMsg_long command long s⟩, fun short => ?_,
    fun group length clean => ⟨fun data => ?_, fun data => ?_⟩⟩
  · exact base_ne _ _ ((pushMsg_short command short s).symm.trans failed)
  · have first := pushMsg_short command short s
    refine ⟨first, ?_⟩
    -- a JOIN or LEAVE is not a command any more
    have plain (type : MsgType) (name : Nat) : (named type name m).command = false := by
      simp [named, Msg.command]
    have again : joinLeave m = m ∨ (joinLeave m).command = false := by grind [joinLeave]
    rcases again with same | plain
    · rwa [same] at first ⊢
    · simp [pushMsg, plain]
  · have here : m.isNamed join = true := by rw [Msg.isNamed, data]; rfl
    rw [joinLeave, if_pos here]
    exact named_eq (n := 4 :: join) length clean (by decide) data
  · have here : m.isNamed leave = true := by rw [Msg.isNamed, data]; rfl
    rw [joinLeave, if_neg (by simp [Msg.isNamed, data, join]), if_pos here]
    exact named_eq (n := 5 :: leave) length clean (by decide) data

def joinFrame (group : List UInt8) : Msg := { flags := 2, data := 4 :: join ++ group }

theorem joins_and_leaves_one : (joinFrame [65]).command = true ∧ ∀ s : RadioSession Unit,
    pushMsg (joinFrame [65]) s = base { type := .join, group := [65] } s := by
  refine ⟨by decide, fun s => ?_⟩
  obtain ⟨-, pushed, kept⟩ := joins_and_leaves (m := joinFrame [65]) (by decide) s
  exact (kept [65] (by decide) (by decide)).1 rfl ▸ (pushed (by decide)).1

set_option maxRecDepth 2000 in
/-- A group of 256 bytes ends the process. -/
theorem long_join_aborts : (joinFrame (.replicate 256 65)).command = true ∧
    ∀ s : RadioSession Unit,
      pushMsg (joinFrame (.replicate 256 65)) s = .error (.assertion .radioPushMsg) :=
  ⟨by decide, fun _ => rfl⟩

end RadioSession

/-! ## Bodies that are tried again -/

/-- The pipe, if there is one, is open and in order. -/
def Session.Fine (s : Session μ) : Prop :=
  s.hasPipe = true → s.pair.Sound ∧ s.pair.LockFree ∧ (s.pair.pipe .first).deleted = false

def Session.written (s : Session μ) : List Msg := s.pair.written .first

/-- The pipe has taken the message, or it stays with the engine. -/
def Session.Offered (s : Session μ) (m : Msg) (r : Rc × Msg) (t : Session μ) : Prop :=
  t.Fine ∧ (r.1 = .ok ∧ t.written = s.written ++ [m] ∨ r = (.again, m) ∧ t.written = s.written)

theorem Session.Fine.pushMsg {s : Session μ} (fine : s.Fine) (plain : m.command = false) :
    wp (fun _ => False) (Session.pushMsg m) (s.Offered m) s := by
  simp only [Session.pushMsg, wp_bind, wp_get, plain, Bool.false_and, Bool.false_eq_true, if_false]
  refine wp_ite (fun there => ?_) fun _ => ⟨fine, .inr ⟨rfl, rfl⟩⟩
  obtain ⟨sound, free, stays⟩ := fine there
  obtain ⟨b, t, ends, writing⟩ := sound.write stays m s.wire.tryLock
  have outcome : s.pair.Outcome .first (.write m true) t := .write writing
  have fine' : Fine { s with pair := t } := fun _ =>
    ⟨writing.sound sound, free.outcome outcome, writing.state_eq.2.trans stays⟩
  simp only [pipe, wp_bind, wp_zoom]
  rw [wp, ends]
  cases b with
  | true => exact ⟨fine', .inl ⟨rfl, writing.written_eq free⟩⟩
  | false =>
    refine ⟨fine', .inr ⟨rfl, ?_⟩⟩
    cases writing with
    | refused => rfl
    | full => exact Pair.written_congr (by simp) rfl

namespace DishSession

/-- The group comes out of a message as it was set, and is seen to be there. -/
def Proper (group : List UInt8) : Prop := group ≠ [] ∧ 0 ∉ group
  deriving Decidable

def IsBody (m : Msg) : Prop := m.more = false ∧ m.command = false
  deriving Decidable

def tagged (group : List UInt8) (m : Msg) : Msg := { m with group := group }

def pushPair (g m : Msg) : Program Fault (DishSession μ) (Rc × Msg) := do
  let _ ← pushMsg g
  pushMsg m

/-- The session goes on to the next pair if the pipe has taken `m`. -/
def Took (s : DishSession μ) (m : Msg) (r : Rc × Msg) (t : DishSession μ) : Prop :=
  s.session.Offered m r t.session ∧ t.state = if r.1 = .ok then .group else .body

variable {s : DishSession μ} {group : List UInt8}

theorem pushBody_took (fine : s.session.Fine) (state : s.state = .body) (body : IsBody m) :
    wp (fun _ => False) (pushBody m) (s.Took m) s := by
  simp only [pushBody, body.1, Bool.false_eq_true, if_false, wp_bind, wp_zoom]
  refine wp_mono (fine.pushMsg body.2) fun r t pushed => ?_
  refine wp_ite (fun ok => ⟨pushed, ?_⟩) fun failed => ⟨pushed, ?_⟩
  · exact (if_pos (by simpa using ok)).symm
  · exact state.trans (if_neg (by simpa using failed)).symm

theorem pushMsg_again (fine : s.session.Fine) (state : s.state = .body) (proper : Proper group)
    (body : IsBody m) :
    wp (fun _ => False) (pushMsg (tagged group m)) (s.Took (tagged group m)) s := by
  have there : (tagged group m).group.headD 0 ≠ 0 := by
    cases group with
    | nil => exact absurd rfl proper.1
    | cons c rest => exact fun zero => proper.2 (by simp_all [tagged])
  simp only [pushMsg, wp_bind, wp_get, state, withGroup, if_pos there, wp_pure]
  exact pushBody_took fine state body

theorem pushPair_took {g : Msg} (fine : s.session.Fine) (state : s.state = .group)
    (more : g.more = true) (short : g.size ≤ 255) (clean : 0 ∉ g.data) (body : IsBody m)
    (bare : m.group = []) : wp (fun _ => False) (pushPair g m) (s.Took (tagged g.data m)) s := by
  have whole : (g.data.take g.size).takeWhile (· != 0) = g.data := by
    rw [Msg.size, List.take_length, List.takeWhile_eq_self_iff]
    exact fun c member => bne_iff_ne.mpr fun zero => clean (zero ▸ member)
  have set : m.setGroup g.data g.size = some (tagged g.data m) := by
    rw [Msg.setGroup, if_neg (Nat.not_lt.mpr short), whole, tagged]
  simp only [pushPair, pushMsg, wp_bind, wp_get, state, more, Bool.not_true, Bool.false_eq_true,
    if_false, if_neg (Nat.not_lt.mpr short), wp_modify, wp_pure, withGroup, bare, List.headD_nil,
    ne_eq, not_true_eq_false, takeGroup, set]
  exact pushBody_took (s := { s with groupMsg := none, state := .body }) fine rfl body

end DishSession

open DishSession (Proper IsBody tagged)

/-- A DISH session and the engine that pushes the frames of a stream to it. -/
structure Reception (μ : Type) where
  dish : DishSession μ
  hand : Option Msg := none
  /-- The groups and bodies of the stream so far, and what the pipe has taken. -/
  offered : List (List UInt8 × Msg) := []
  accepted : List Msg := []

namespace Reception

inductive Action (μ : Type) where
  | pair (group body : Msg)
  | retry
  /-- What the socket and the rest of the session do. -/
  | elsewhere (f : Session μ → Session μ)

def push (x : Program Fault (DishSession μ) (Rc × Msg)) (s : Reception μ) :
    Except Fault (Reception μ) := do
  let ((rc, rest), dish) ← x s.dish
  .ok { s with
    dish := dish
    hand := if rc = .again then some rest else none
    accepted := s.accepted ++ dish.session.written.drop s.dish.session.written.length }

variable (s : Reception μ)

def step : Action μ → Except Fault (Reception μ)
  | .pair g m =>
    push (DishSession.pushPair g m) { s with offered := s.offered ++ [(g.data, m)] }
  | .retry => s.hand.elim (.ok s) fun m => push (DishSession.pushMsg m) s
  | .elsewhere f => .ok { s with dish := { s.dish with session := f s.dish.session } }

/-- Nothing comes before a body that was refused. -/
def Possible : Action μ → Prop
  | .pair g m => s.hand = none ∧ g.more = true ∧ g.size ≤ 255 ∧ IsBody m ∧ m.group = []
  | .retry => s.hand ≠ none
  | .elsewhere f => (f s.dish.session).Fine

def Careful (a : Action μ) : Prop :=
  s.Possible a ∧ ∀ g m, a = .pair g m → Proper g.data

inductive Stage : DishState → Option Msg → List (List UInt8 × Msg) → List Msg → Prop where
  | ready (offered : List (List UInt8 × Msg)) :
      Stage .group none offered (offered.map tagged.uncurry)
  | refused (before : List (List UInt8 × Msg)) (group : List UInt8) (m : Msg) : Proper group →
      IsBody m → Stage .body (some (tagged group m)) (before ++ [(group, m)])
        (before.map tagged.uncurry)

def Orderly : Prop :=
  s.dish.session.Fine ∧ Stage s.dish.state s.hand s.offered s.accepted

variable {s : Reception μ}

theorem push_orderly {x : Program Fault (DishSession μ) (Rc × Msg)}
    {before : List (List UInt8 × Msg)} {group : List UInt8}
    (took : wp (fun _ => False) x (s.dish.Took (tagged group m)) s.dish) (proper : Proper group)
    (body : IsBody m) (offered : s.offered = before ++ [(group, m)])
    (accepted : s.accepted = before.map tagged.uncurry) : ∃ t, push x s = .ok t ∧ t.Orderly := by
  obtain ⟨⟨rc, rest⟩, d, ends, ⟨fine, pushed⟩, state⟩ := wp_total took
  refine ⟨_, by rw [push, ends]; rfl, fine, ?_⟩
  simp only [state, offered, accepted]
  rcases pushed with ⟨rfl, more⟩ | ⟨⟨⟩, still⟩
  · simpa [more] using Stage.ready (before ++ [(group, m)])
  · simpa [still] using Stage.refused before group m proper body

theorem Orderly.step {a : Action μ} (orderly : s.Orderly) (careful : s.Careful a) :
    ∃ t, s.step a = .ok t ∧ t.Orderly := by
  obtain ⟨possible, proper⟩ := careful
  obtain ⟨⟨session, state, held⟩, hand, offered, accepted⟩ := s
  have fine : session.Fine := orderly.1
  have stage : Stage state hand offered accepted := orderly.2
  cases a with
  | pair g m =>
    obtain ⟨none, more, short, body, bare⟩ := possible
    have proper := proper g m rfl
    cases stage with
    | ready =>
      exact push_orderly (DishSession.pushPair_took fine rfl more short proper.2 body bare) proper
        body rfl rfl
    | refused => cases none
  | retry =>
    cases stage with
    | ready => exact absurd rfl possible
    | refused before group m proper body =>
      exact push_orderly (DishSession.pushMsg_again fine rfl proper body) proper body rfl rfl
  | elsewhere f => exact ⟨_, rfl, possible, stage⟩

/-- While no group is empty or has a NUL in it, no push fails, and the pipe takes the bodies with
    their groups. -/
theorem bodies_keep_groups {session : Session μ} (fine : session.Fine)
    (reached : Reaches step Careful { dish := { session := session } } s) :
    (∀ a, s.Careful a → ∃ t, s.step a = .ok t) ∧
      s.accepted = (if s.hand = none then s.offered else s.offered.dropLast).map
        fun (group, m) => { m with group := group } := by
  have orderly : s.Orderly := by
    apply reached.invariant ⟨fine, .ready []⟩
    intro s a t orderly careful taken
    obtain ⟨t', ends, kept⟩ := orderly.step careful
    cases ends.symm.trans taken
    exact kept
  refine ⟨fun a careful => ?_, ?_⟩
  · obtain ⟨t, ends, -⟩ := orderly.step careful
    exact ⟨t, ends⟩
  · obtain ⟨⟨session, state, held⟩, hand, offered, accepted⟩ := s
    have stage : Stage state hand offered accepted := orderly.2
    cases stage with
    | ready => rfl
    | refused => simp [tagged]

/-- A session whose pipe is full after one message. -/
def narrow : Session Unit :=
  { Session.new {} with pair := .attached (fun _ => 1) fun _ => false, hasPipe := true }

theorem bodies_keep_groups_refused :
    ∃ s, Reaches step Careful { dish := { session := narrow } } s ∧
      s.hand = some { data := [2], group := [66] } ∧
      s.accepted = [{ data := [1], group := [65] }] := by
  have first : Reaches step Careful { dish := { session := narrow } } _ :=
    Reaches.start.next (a := Action.pair { flags := 1, data := [65] } { data := [1] })
      ⟨⟨rfl, by decide⟩, fun _ _ same => by cases same; decide⟩ rfl
  have second := first.next (a := Action.pair { flags := 1, data := [66] } { data := [2] })
    ⟨⟨rfl, by decide⟩, fun _ _ same => by cases same; decide⟩ rfl
  exact ⟨_, second, rfl, (bodies_keep_groups
    (fun _ => ⟨Pair.attached_sound _ _, Pair.attached_lockFree _, rfl⟩) second).2⟩

/-- The group of the second body is empty. The retry looks for it in the frame before, which is
    closed. -/
theorem empty_group_aborts :
    ∃ s, Reaches step Possible { dish := { session := narrow } } s ∧ s.Possible .retry ∧
      s.step .retry = .error (.assertion .msgData) := by
  have first : Reaches step Possible { dish := { session := narrow } } _ :=
    Reaches.start.next (a := Action.pair { flags := 1, data := [65] } { data := [1] })
      ⟨rfl, by decide⟩ rfl
  have second := first.next (a := Action.pair { flags := 1 } { data := [2] }) ⟨rfl, by decide⟩ rfl
  exact ⟨_, second, nofun, rfl⟩

end Reception

end Zmq
