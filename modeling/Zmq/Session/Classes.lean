import Zmq.Pipe.Written
import Zmq.Session.Basic

/-! # The classes of sessions

`push_msg` of `session_base_t` and of the classes derived from it, each with the state machine that
it runs over the frames of a connection. A heartbeat comes to `push_msg` like any other frame: from
a ZMTP engine as a command that is named PING or PONG, from a WebSocket engine with the payload the
peer gave it.
-/

namespace Zmq

open Lib

inductive ReqState where
  | bottom
  | requestId
  | body
  deriving Repr, DecidableEq

inductive DishState where
  | group
  | body
  deriving Repr, DecidableEq

structure ReqSession (μ : Type) where
  session : Session μ
  state : ReqState := .bottom

structure DishSession (μ : Type) where
  session : Session μ
  state : DishState := .group
  /-- `_group_msg`, while it is a message. -/
  groupMsg : Option Msg := none

structure RadioSession (μ : Type) where
  session : Session μ

variable {μ : Type}

namespace ReqSession

/-- `session_base_t::push_msg`. -/
def base (m : Msg) : Program Fault (ReqSession μ) (Rc × Msg) :=
  zoom session (fun s base => { s with session := base }) (Session.pushMsg m)

def enter (state : ReqState) (m : Msg) : Program Fault (ReqSession μ) (Rc × Msg) := do
  modify fun s => { s with state := state }
  base m

def pushMsg (m : Msg) : Program Fault (ReqSession μ) (Rc × Msg) := do
  if m.command then pure (.ok, m)
  else do
    let s ← get
    match s.state with
    | .bottom =>
      if m.flags = MsgFlag.more ∧ m.size = 4 then enter .requestId m
      else if m.flags = MsgFlag.more ∧ m.size = 0 then enter .body m
      else pure (.failed, m)
    | .requestId =>
      if m.flags = MsgFlag.more ∧ m.size = 0 then enter .body m else pure (.failed, m)
    | .body =>
      if m.flags = MsgFlag.more then base m
      else if m.flags = 0 then enter .bottom m
      else pure (.failed, m)

end ReqSession

namespace DishSession

/-- Give the body the group of the frame before it, which is closed then. -/
def takeGroup (m : Msg) : Program Fault (DishSession μ) Msg := do
  let s ← get
  match s.groupMsg with
  | none => throw (.assertion .msgData)
  | some group =>
    match m.setGroup group.data group.size with
    | none => throw (.assertion .dishPushMsg)
    | some m => do
        modify fun s => { s with groupMsg := none }
        pure m

def withGroup (m : Msg) : Program Fault (DishSession μ) Msg :=
  if m.group.headD 0 ≠ 0 then pure m else takeGroup m

def pushBody (m : Msg) : Program Fault (DishSession μ) (Rc × Msg) :=
  if m.more then pure (.failed, m)
  else do
    let (rc, m) ← zoom session (fun s base => { s with session := base }) (Session.pushMsg m)
    onlyIf (rc == .ok) (modify fun s => { s with state := .group })
    pure (rc, m)

def pushMsg (m : Msg) : Program Fault (DishSession μ) (Rc × Msg) := do
  let s ← get
  match s.state with
  | .group =>
    if !m.more then pure (.failed, m)
    else if 255 < m.size then pure (.failed, m)
    else do
      modify fun s => { s with groupMsg := some m, state := .body }
      pure (.ok, .init)
  | .body => do
      let m ← withGroup m
      pushBody m

end DishSession

namespace RadioSession

/-- `session_base_t::push_msg`. -/
def base (m : Msg) : Program Fault (RadioSession μ) (Rc × Msg) :=
  zoom session (fun s base => { s with session := base }) (Session.pushMsg m)

/-- The size of a command without its name, cast to `int` and back to `size_t`. -/
def groupLength (size name : Nat) : Nat := (((BitVec.ofNat 32 size).toInt - name) % 2 ^ 64).toNat

/-- Push a JOIN or LEAVE in the place of the command that asks for it. -/
def pushJoinLeave (type : MsgType) (name : Nat) (m : Msg) :
    Program Fault (RadioSession μ) (Rc × Msg) :=
  match ({ type := type } : Msg).setGroup (m.data.drop name) (groupLength m.size name) with
  | none => throw (.assertion .radioPushMsg)
  | some joinLeave => base joinLeave

def pushMsg (m : Msg) : Program Fault (RadioSession μ) (Rc × Msg) :=
  if m.command then
    if m.isNamed [74, 79, 73, 78] then pushJoinLeave .join 5 m
    else if m.isNamed [76, 69, 65, 86, 69] then pushJoinLeave .leave 6 m
    else base m
  else base m

end RadioSession

inductive SessionClass where
  | base
  | req
  | dish
  | radio
  deriving Repr, DecidableEq

inductive AnySession (μ : Type) where
  | base (s : Session μ)
  | req (s : ReqSession μ)
  | dish (s : DishSession μ)
  | radio (s : RadioSession μ)

/-- What happens to a session: its engine pushes a frame, or the pipe is read, written, flushed or
    terminated by someone else. -/
inductive Feed (μ : Type) where
  | frame (m : Msg)
  | elsewhere (f : Session μ → Session μ)

def Msg.isHeartbeat (m : Msg) : Bool := m.command && (m.isPing || m.isPong)

def Feed.isHeartbeat : Feed μ → Bool
  | .frame m => m.isHeartbeat
  | .elsewhere _ => false

namespace AnySession

def sessionClass : AnySession μ → SessionClass
  | .base _ => .base
  | .req _ => .req
  | .dish _ => .dish
  | .radio _ => .radio

def session : AnySession μ → Session μ
  | .base s => s
  | .req s => s.session
  | .dish s => s.session
  | .radio s => s.session

def pushMsg (m : Msg) : AnySession μ → Except Fault ((Rc × Msg) × AnySession μ)
  | .base s => (Session.pushMsg m s).map fun r => (r.1, .base r.2)
  | .req s => (ReqSession.pushMsg m s).map fun r => (r.1, .req r.2)
  | .dish s => (DishSession.pushMsg m s).map fun r => (r.1, .dish r.2)
  | .radio s => (RadioSession.pushMsg m s).map fun r => (r.1, .radio r.2)

def elsewhere (f : Session μ → Session μ) : AnySession μ → AnySession μ
  | .base s => .base (f s)
  | .req s => .req { s with session := f s.session }
  | .dish s => .dish { s with session := f s.session }
  | .radio s => .radio { s with session := f s.session }

def run : List (Feed μ) → AnySession μ → Except Fault (List (Msg × Rc) × AnySession μ)
  | [], s => .ok ([], s)
  | .frame m :: rest, s => do
      let (answer, s) ← s.pushMsg m
      let (answers, s) ← run rest s
      .ok ((m, answer.1) :: answers, s)
  | .elsewhere f :: rest, s => run rest (s.elsewhere f)

/-- If the session accepts the stream without the heartbeats, then with them the frames of the
    stream get the same answers, the heartbeats are accepted, and the pipe is the same. -/
def Unaffected (s : AnySession μ) (mixed : List (Feed μ)) : Prop :=
  ∀ answers t, run (mixed.filter fun x => !x.isHeartbeat) s = .ok (answers, t) →
    (∀ a ∈ answers, a.2 = .ok) →
    ∃ all t', run mixed s = .ok (all, t') ∧ (all.filter fun a => !a.1.isHeartbeat) = answers ∧
      (∀ a ∈ all, a.1.isHeartbeat = true → a.2 = .ok) ∧ t'.session = t.session

end AnySession

/-- The heartbeats that leave a session of the class alone. Over ZMTP the name of a heartbeat is
    PING or PONG. -/
def SessionClass.Ignores (c : SessionClass) (m : Msg) : Prop :=
  c ≠ .dish ∧
    (c = .radio → m.isNamed [74, 79, 73, 78] = false ∧ m.isNamed [76, 69, 65, 86, 69] = false)

variable {m : Msg} {s t : AnySession μ}

/-- A message has one name. -/
theorem Msg.isNamed_only (names : List (List UInt8)) {other : List UInt8}
    (named : names.any m.isNamed = true) (short : ∀ name ∈ other :: names, name.length < 256)
    (absent : other ∉ names) : m.isNamed other = false := by
  obtain ⟨name, there, named⟩ := List.any_eq_true.mp named
  obtain ⟨short', short⟩ := List.forall_mem_cons.mp short
  by_contra both
  simp only [isNamed, Bool.and_eq_true, beq_iff_eq, Bool.not_eq_false] at named both
  have first : UInt8.ofNat name.length = UInt8.ofNat other.length :=
    Option.some.inj (named.1.symm.trans both.1)
  have sizes := congrArg UInt8.toNat first
  have length : name.length = other.length := by
    simpa [Nat.mod_eq_of_lt (short name there), Nat.mod_eq_of_lt short'] using sizes
  obtain rfl : name = other := by rw [← named.2, ← both.2, length]
  exact absent there

theorem Msg.isHeartbeat_command (heartbeat : m.isHeartbeat = true) : m.command = true :=
  (Bool.and_eq_true _ _ ▸ heartbeat : m.command = true ∧ _).1

theorem Msg.isHeartbeat_not_subscription (heartbeat : m.isHeartbeat = true) :
    m.isSubscribe = false ∧ m.isCancel = false := by
  simp only [isHeartbeat, Bool.and_eq_true, Bool.or_eq_true, isPing, isPong, beq_iff_eq]
    at heartbeat
  rcases heartbeat.2 with kind | kind <;> simp only [isSubscribe, isCancel, kind] <;> decide

theorem Session.pushMsg_heartbeat (heartbeat : m.isHeartbeat = true) (s : Session μ) :
    Session.pushMsg m s = .ok ((.ok, m), s) := by
  obtain ⟨plain, plain'⟩ := Msg.isHeartbeat_not_subscription heartbeat
  have dropped : (m.command && !m.isSubscribe && !m.isCancel) = true := by
    simp [Msg.isHeartbeat_command heartbeat, plain, plain']
  change (if (m.command && !m.isSubscribe && !m.isCancel) = true then _ else _ : SessionM μ _) s = _
  rw [if_pos dropped]
  rfl

namespace AnySession

theorem pushMsg_ignored {m : Msg} (heartbeat : m.isHeartbeat = true)
    (ignored : s.sessionClass.Ignores m) : s.pushMsg m = .ok ((.ok, m), s) := by
  have command := Msg.isHeartbeat_command heartbeat
  obtain ⟨notDish, notJoin⟩ := ignored
  cases s with
  | base s => rw [pushMsg, Session.pushMsg_heartbeat heartbeat]; rfl
  | req s => rw [pushMsg, ReqSession.pushMsg, if_pos command]; rfl
  | dish s => exact absurd rfl notDish
  | radio s =>
    obtain ⟨join, leave⟩ := notJoin rfl
    have dropped : RadioSession.base m s = .ok ((.ok, m), s) := by
      rw [RadioSession.base, zoom, Session.pushMsg_heartbeat heartbeat]
      rfl
    rw [pushMsg, RadioSession.pushMsg, if_pos command, if_neg (by simp [join]),
      if_neg (by simp [leave]), dropped]
    rfl

theorem sessionClass_pushMsg {m : Msg} {answer : Rc × Msg}
    (pushed : s.pushMsg m = .ok (answer, t)) : t.sessionClass = s.sessionClass := by
  cases s <;>
  · obtain ⟨r, _, ⟨⟩⟩ := map_ok.mp pushed
    rfl

theorem sessionClass_elsewhere (f : Session μ → Session μ) (s : AnySession μ) :
    (s.elsewhere f).sessionClass = s.sessionClass := by
  cases s <;> rfl

variable {mixed : List (Feed μ)}

section

variable (ignored : ∀ m, .frame m ∈ mixed → m.isHeartbeat = true → s.sessionClass.Ignores m)
include ignored

theorem run_ignored :
    run (mixed.filter fun x => !x.isHeartbeat) s =
      (run mixed s).map fun r => (r.1.filter fun a => !a.1.isHeartbeat, r.2) := by
  induction mixed generalizing s with
  | nil => rfl
  | cons x rest ih =>
    cases x with
    | elsewhere f =>
      apply ih
      intro m there heartbeat
      rw [sessionClass_elsewhere]
      exact ignored m (List.mem_cons_of_mem _ there) heartbeat
    | frame m =>
      cases kind : m.isHeartbeat with
      | true =>
        have pushed := pushMsg_ignored kind (ignored m List.mem_cons_self kind)
        have later := ih fun m there => ignored m (List.mem_cons_of_mem _ there)
        rw [List.filter_cons_of_neg (by simp [Feed.isHeartbeat, kind]), later, run, pushed]
        cases ends : run rest s with
        | error e => simp [ends]
        | ok r => simp [Except.map, ends, kind]
      | false =>
        rw [List.filter_cons_of_pos (by simp [Feed.isHeartbeat, kind]), run, run]
        cases pushed : s.pushMsg m with
        | error e => rfl
        | ok r =>
          have later := ih (s := r.2) fun m there heartbeat => by
            rw [sessionClass_pushMsg pushed]
            exact ignored m (List.mem_cons_of_mem _ there) heartbeat
          simp only [ok_bind, later]
          cases ends : run rest r.2 with
          | error e => rfl
          | ok q => simp [Except.map, kind]

theorem heartbeats_accepted {all : List (Msg × Rc)}
    (ends : run mixed s = .ok (all, t)) : ∀ a ∈ all, a.1.isHeartbeat = true → a.2 = .ok := by
  induction mixed generalizing s all with
  | nil =>
    cases ends
    simp
  | cons x rest ih =>
    cases x with
    | elsewhere f =>
      refine ih (fun m there heartbeat => ?_) ends
      rw [sessionClass_elsewhere]
      exact ignored m (List.mem_cons_of_mem _ there) heartbeat
    | frame m =>
      obtain ⟨⟨answer, s'⟩, pushed, ends⟩ := bind_ok.mp ends
      obtain ⟨⟨answers, s''⟩, later, ⟨⟩⟩ := bind_ok.mp ends
      intro a there heartbeat
      rcases List.mem_cons.mp there with rfl | there
      · rw [pushMsg_ignored heartbeat (ignored m List.mem_cons_self heartbeat)] at pushed
        exact (congrArg Prod.fst (Prod.mk.inj (Except.ok.inj pushed)).1).symm
      · refine ih (fun m there heartbeat => ?_) later a there heartbeat
        rw [sessionClass_pushMsg pushed]
        exact ignored m (List.mem_cons_of_mem _ there) heartbeat

theorem unaffected_of_ignored : Unaffected s mixed := by
  intro answers t accepted _
  rw [run_ignored ignored] at accepted
  obtain ⟨⟨all, t'⟩, ends, ⟨⟩⟩ := map_ok.mp accepted
  exact ⟨all, t', ends, rfl, heartbeats_accepted ignored ends, rfl⟩

end

end AnySession

/-- The messages that `session_base_t::push_msg` does not drop. -/
def Msg.forwarded (m : Msg) : Bool := !(m.command && !m.isSubscribe && !m.isCancel)

namespace Session

variable {s : Session μ}

structure Open (s : Session μ) : Prop where
  hasPipe : s.hasPipe = true
  room : (s.pair.checkWrite .first).1 = true
  queue : ∃ k y, (s.pair.pipe .first).outPipe = some k ∧ s.pair.queue .second k = some (.normal y)

theorem Open.write (takes : s.Open) (m : Msg) (lock : Bool) :
    ∃ t, s.pair.write .first m lock = .ok (true, t) ∧
      t.written .first = s.pair.written .first ++ [m] := by
  obtain ⟨k, y, out, queue⟩ := takes.queue
  rw [Pair.write, if_pos takes.room]
  simp only [out, End.peer, Pair.deref, queue, ok_bind]
  refine ⟨_, rfl, ?_⟩
  rw [Pair.written_eq out queue, Pair.written_eq (q := Upipe.write (.normal y) m m.more lock)
    (k := k) (by simp [out]) (by simp [End.peer])]
  exact Upipe.items_write (u := .normal y) rfl m.more lock

theorem wp_pushMsg (takes : s.Open) (m : Msg) :
    wp (fun _ => False) (pushMsg m) (fun _ t => t.pair.written .first =
      s.pair.written .first ++ if m.forwarded then [m] else []) s := by
  simp only [pushMsg, wp_bind, wp_get]
  cases forwarded : m.forwarded with
  | false =>
    rw [if_pos (by simpa only [Msg.forwarded, Bool.not_eq_false'] using forwarded)]
    exact (List.append_nil _).symm
  | true =>
    rw [if_neg (by simpa only [Msg.forwarded, Bool.not_eq_true', Bool.not_eq_true]
      using forwarded), if_pos takes.hasPipe]
    obtain ⟨t, done, written⟩ := takes.write m s.wire.tryLock
    simp only [pipe, wp_bind, wp_zoom]
    rw [wp, done]
    exact written

/-- A session whose pipe has no watermarks, right after `engine_ready`. -/
def connected : Session μ := { Session.new {} with hasPipe := true }

theorem connected_open : (connected : Session μ).Open := ⟨rfl, rfl, 0, _, rfl, rfl⟩

end Session

theorem DishSession.pushMsg_group {s t : DishSession μ} {rest : Msg} (state : s.state = .group)
    (taken : DishSession.pushMsg m s = .ok ((.ok, rest), t)) :
    m.size ≤ 255 ∧ t = { s with groupMsg := some m, state := .body } := by
  have spec : wp (fun _ => True) (pushMsg m) (fun r t => r.1 = .ok → m.size ≤ 255 ∧
      t = { s with groupMsg := some m, state := .body }) s := by
    simp only [pushMsg, wp_bind, wp_get, state]
    refine wp_ite (fun _ => (by simp)) fun _ => wp_ite (fun _ => (by simp)) fun short => ?_
    exact fun _ => ⟨by omega, rfl⟩
  exact wp_ok spec taken rfl

theorem DishSession.pushMsg_body {s t : DishSession μ} {rest group : Msg} {rc : Rc}
    (state : s.state = .body) (held : s.groupMsg = some group) (short : group.size ≤ 255)
    (bare : m.group = []) (more : m.more = true)
    (taken : DishSession.pushMsg m s = .ok ((rc, rest), t)) : rc = .failed := by
  have spec : wp (fun _ => True) (pushMsg m) (fun r _ => r.1 = .failed) s := by
    have set : m.setGroup group.data group.size =
        some { m with group := (group.data.take group.size).takeWhile (· != 0) } :=
      if_neg (by omega)
    simp only [pushMsg, wp_bind, wp_get, state, withGroup, bare, List.headD_nil, ne_eq,
      not_true_eq_false, if_false, takeGroup, held, set]
    exact wp_ite (fun _ => rfl) fun single => absurd more single
  have refused := wp_ok spec taken
  exact refused

theorem RadioSession.pushJoinLeave_written {t : RadioSession μ} {type : MsgType} {name : Nat}
    {answer : Rc × Msg} (taken : pushJoinLeave type name m ⟨.connected⟩ = .ok (answer, t)) :
    t.session.pair.written .first ≠ [] := by
  cases set : Msg.setGroup { type := type } (m.data.drop name) (groupLength m.size name) with
  | none =>
    rw [pushJoinLeave, set] at taken
    cases taken
  | some joinLeave =>
    rw [pushJoinLeave, set] at taken
    have plain : joinLeave.forwarded = true := by
      unfold Msg.setGroup at set
      split at set <;> cases set
      simp [Msg.forwarded, Msg.command]
    obtain ⟨⟨_, part⟩, pushed, ⟨⟩⟩ := bind_ok.mp taken
    have written := wp_ok (Session.wp_pushMsg Session.connected_open joinLeave) pushed
    simp [written, plain]

namespace AnySession

def groupFrame : Msg := { flags := MsgFlag.more, data := [65] }

def bodyFrame : Msg := { data := [66] }

def newDish : AnySession μ := .dish { session := .connected }

def newRadio : AnySession μ := .radio { session := .connected }

theorem newDish_affected {m : Msg} (heartbeat : m.isHeartbeat = true) :
    ¬ Unaffected (newDish : AnySession μ) [.frame m, .frame groupFrame, .frame bodyFrame] := by
  intro unaffected
  have stripped : ([.frame m, .frame groupFrame, .frame bodyFrame] : List (Feed μ)).filter
      (fun x => !x.isHeartbeat) = [.frame groupFrame, .frame bodyFrame] := by
    rw [List.filter_cons_of_neg (by simp [Feed.isHeartbeat, heartbeat])]
    rfl
  obtain ⟨t, accepted⟩ : ∃ t : AnySession μ, run [.frame groupFrame, .frame bodyFrame] newDish =
      .ok ([(groupFrame, .ok), (bodyFrame, .ok)], t) := ⟨_, rfl⟩
  obtain ⟨all, t', ends, kept, beats, -⟩ := unaffected _ t (stripped ▸ accepted) (by simp)
  obtain ⟨⟨⟨rc, _⟩, s⟩, first, ends⟩ := bind_ok.mp ends
  obtain ⟨⟨answers, _⟩, later, ⟨⟩⟩ := bind_ok.mp ends
  obtain ⟨⟨⟨rc', _⟩, s'⟩, second, later⟩ := bind_ok.mp later
  obtain ⟨⟨answers', _⟩, -, ⟨⟩⟩ := bind_ok.mp later
  have taken : rc = .ok := beats _ List.mem_cons_self heartbeat
  have group : groupFrame.isHeartbeat = false := by decide
  rw [List.filter_cons_of_neg (by simp [heartbeat]),
    List.filter_cons_of_pos (by simp [group])] at kept
  have accepted : rc' = .ok := congrArg Prod.snd (List.cons.inj kept).1
  -- the heartbeat was accepted as the group, and so the group as a body
  subst taken
  obtain ⟨⟨_, dish⟩, pushed, ⟨⟩⟩ := map_ok.mp first
  obtain ⟨short, rfl⟩ := DishSession.pushMsg_group rfl pushed
  obtain ⟨⟨_, dish'⟩, pushed', ⟨⟩⟩ := map_ok.mp second
  have refused := DishSession.pushMsg_body rfl rfl short rfl rfl pushed'
  rw [accepted] at refused
  cases refused

theorem newRadio_affected {m : Msg} (heartbeat : m.isHeartbeat = true)
    (named : m.isNamed [74, 79, 73, 78] = true ∨ m.isNamed [76, 69, 65, 86, 69] = true) :
    ¬ Unaffected (newRadio : AnySession μ) [.frame m] := by
  intro unaffected
  have stripped : ([.frame m] : List (Feed μ)).filter (fun x => !x.isHeartbeat) = [] := by
    simp [Feed.isHeartbeat, heartbeat]
  obtain ⟨all, t, ends, -, -, same⟩ := unaffected [] newRadio (by rw [stripped]; rfl) (by simp)
  obtain ⟨⟨_, s⟩, called, ⟨⟩⟩ := bind_ok.mp ends
  obtain ⟨⟨_, radio⟩, pushed, ⟨⟩⟩ := map_ok.mp called
  have written : radio.session.pair.written .first ≠ [] := by
    cases join : m.isNamed [74, 79, 73, 78] with
    | true =>
      simp only [RadioSession.pushMsg, Msg.isHeartbeat_command heartbeat, join] at pushed
      exact RadioSession.pushJoinLeave_written pushed
    | false =>
      have leave := named.resolve_left (by simp [join])
      simp only [RadioSession.pushMsg, Msg.isHeartbeat_command heartbeat, join, leave] at pushed
      exact RadioSession.pushJoinLeave_written pushed
  rw [show radio.session = .connected from same] at written
  exact written rfl

/-- Over ZMTP a heartbeat has its own name, so only a DISH session does not ignore it. -/
theorem ignores_of_named {c : SessionClass} {m : Msg} (notDish : c ≠ .dish)
    (named : m.isNamed [80, 73, 78, 71] = true ∨ m.isNamed [80, 79, 78, 71] = true) :
    c.Ignores m := by
  have named : [[80, 73, 78, 71], [80, 79, 78, 71]].any m.isNamed = true := by simpa using named
  exact ⟨notDish, fun _ => ⟨Msg.isNamed_only _ named (by decide) (by decide),
    Msg.isNamed_only _ named (by decide) (by decide)⟩⟩

/-- Heartbeats are transparent to the sessions of a class if and only if the class ignores them.
    `beats` are the heartbeats that the peer sends. -/
theorem heartbeats_transparent_iff (c : SessionClass) (beats : Set Msg)
    (heartbeats : ∀ m ∈ beats, m.isHeartbeat = true) :
    (∀ s : AnySession μ, s.sessionClass = c → ∀ mixed : List (Feed μ),
      (∀ m, .frame m ∈ mixed → m.command = false ∨ m ∈ beats) → Unaffected s mixed) ↔
      ∀ m ∈ beats, c.Ignores m := by
  constructor
  · intro transparent m sent
    have data : ∀ rest : List (Feed μ), (∀ m, .frame m ∈ rest → m.command = false) →
        ∀ m', .frame m' ∈ .frame m :: rest → m'.command = false ∨ m' ∈ beats := by
      intro rest plain m' there
      rcases List.mem_cons.mp there with same | there
      · cases same
        exact .inr sent
      · exact .inl (plain m' there)
    refine ⟨?_, ?_⟩
    · rintro rfl
      refine newDish_affected (heartbeats m sent) (transparent newDish rfl _ (data _ ?_))
      intro m' there
      simp only [List.mem_cons, Feed.frame.injEq, List.not_mem_nil, or_false] at there
      rcases there with rfl | rfl <;> rfl
    · rintro rfl
      by_contra named
      simp only [not_and_or, Bool.not_eq_false] at named
      exact newRadio_affected (heartbeats m sent) named
        (transparent newRadio rfl _ (data [] (by simp)))
  · intro ignored s same mixed sent
    refine unaffected_of_ignored fun m there heartbeat => ?_
    rcases sent m there with plain | sent
    · rw [Msg.isHeartbeat_command heartbeat] at plain
      cases plain
    · exact same ▸ ignored m sent

/-- A PING with a time to live of one second. -/
def pingFrame : Msg :=
  { flags := MsgFlag.command ||| MsgFlag.ping, data := [4, 80, 73, 78, 71, 0, 10] }

theorem heartbeats_transparent_iff_radio :
    pingFrame.isHeartbeat = true ∧ ∀ s : AnySession Unit, s.sessionClass = .radio →
      ∀ mixed : List (Feed Unit),
        (∀ m, .frame m ∈ mixed → m.command = false ∨ m ∈ ({pingFrame} : Set Msg)) →
          Unaffected s mixed := by
  have heartbeat : pingFrame.isHeartbeat = true := by decide
  refine ⟨heartbeat, (heartbeats_transparent_iff .radio {pingFrame} ?_).mpr ?_⟩
  · rintro m rfl
    exact heartbeat
  · rintro m rfl
    exact ignores_of_named (by decide) (.inl (by decide))

/-- A DISH session accepts the two frames of a message and writes it. A PING before them is an
    error. A PING between them is taken for the body and dropped with the group, and then the body
    is an error and the message is lost. -/
theorem dish_heartbeat_breaks :
    pingFrame.isHeartbeat = true ∧
    (∃ t, run [.frame groupFrame, .frame bodyFrame] (newDish : AnySession Unit) =
      .ok ([(groupFrame, .ok), (bodyFrame, .ok)], t) ∧
      (t.session.pair.pipe .first).msgsWritten = 1) ∧
    (∃ t, run [.frame pingFrame] (newDish : AnySession Unit) = .ok ([(pingFrame, .failed)], t)) ∧
    (∃ t, run [.frame groupFrame, .frame pingFrame, .frame bodyFrame] (newDish : AnySession Unit) =
      .ok ([(groupFrame, .ok), (pingFrame, .ok), (bodyFrame, .failed)], t) ∧
      (t.session.pair.pipe .first).msgsWritten = 0) := by
  refine ⟨by decide, ⟨_, rfl, rfl⟩, ⟨_, rfl⟩, ⟨_, rfl, rfl⟩⟩

end AnySession

end Zmq
