import Zmq.Session.Stack

/-! # Commands of the peer

A session drops the commands that come to it, but for those that have the type of a subscription or
cancellation. No frame has such a type when it is decoded; an engine of ZMTP 3 gives it by the name.
-/

namespace Zmq

open Lib Wire

variable {μ : Type} {m : Msg} {s : Session μ} {t : AnySession μ} {r : Rc × Msg}

/-- The message has the name of a subscription or cancellation. -/
def Msg.isSubscription (m : Msg) : Bool :=
  [[83, 85, 66, 83, 67, 82, 73, 66, 69], [67, 65, 78, 67, 69, 76]].any m.isNamed

namespace Stack

variable {stack : Stack} {box : Box} {easy : Bool} {k : CurveEncoding} {y : Msg}

/-- The engine gives commands their type by their name. -/
def recognises : Stack → Bool
  | .zmtp3_0 _ | .zmtp3_1 _ => true
  | .zmtp1_0 | .zmtp2_0 | .ws _ => false

/-- The flags of a message by the byte of flags of its frame, and by the opcode over WebSocket. -/
def flagsRead (opcode : Opcode) (byte : UInt8) : Stack → UInt8
  | .zmtp1_0 => byte &&& MsgFlag.more
  | .zmtp2_0 | .zmtp3_0 _ | .zmtp3_1 _ => msgFlags byte
  | .ws _ => if opcode = .binary then wsMsgFlags byte else opcode.flags.getD 0

/-- `mechanism_t::decode`, if there is a mechanism and the frame goes through it. -/
def decode (stack : Stack) (box : Box) (easy : Bool) (k : CurveEncoding) (m : Msg) : Option Msg :=
  match stack, stack.mechanism with
  | _, none => some m
  | .ws _, some kind => if WsEngine.isControl m then some m else decodeBy kind
  | _, some kind => decodeBy kind
where
  decodeBy (kind : MechanismKind) : Option Msg :=
    match ((Mechanism.data box easy kind).decode k m).1 with
    | (.ok, m) => some m
    | _ => none

/-- A frame as the peer sends it; only WebSocket frames have an opcode. -/
structure PeerFrame where
  opcode : Opcode := .binary
  flags : UInt8
  body : List UInt8

/-- A message that the mechanism makes of one of the frames, in any state. -/
def Decodes (stack : Stack) (box : Box) (easy : Bool) (frames : Set PeerFrame) (y : Msg) : Prop :=
  ∃ f ∈ frames, ∃ k,
    stack.decode box easy k { flags := stack.flagsRead f.opcode f.flags, data := f.body } = some y

/-- The sessions of the class let the command through to the pipe. A DISH session takes a frame
    with the flag MORE for a group. -/
def Admits (stack : Stack) (c : SessionClass) (y : Msg) : Prop :=
  stack.recognises = true ∧ y.command = true ∧ y.isSubscription = true ∧ c ≠ .req ∧
    (c = .dish → y.more = false)

theorem type_decodeBy {kind : MechanismKind}
    (decoded : decode.decodeBy box easy k m kind = some y) :
    y.flags &&& MsgFlag.cmdTypeMask = m.flags &&& MsgFlag.cmdTypeMask ∨
      y.flags &&& MsgFlag.cmdTypeMask = 0 := by
  have masked (f : UInt8) : f &&& flagMask &&& MsgFlag.cmdTypeMask = 0 :=
    (UInt8.and_assoc ..).trans UInt8.and_zero
  cases kind with
  | null | plain =>
    cases decoded
    exact .inl rfl
  | curve =>
    simp only [decode.decodeBy, Mechanism.data] at decoded
    cases valid : k.checkValidity m with
    | error e =>
      simp only [CurveEncoding.decode, valid] at decoded
      grind
    | ok e =>
      rw [CurveEncoding.decode_eq valid] at decoded
      grind [or_and_of_apart]

theorem type_flagsRead (stack : Stack) (opcode : Opcode) (byte : UInt8) :
    let type := stack.flagsRead opcode byte &&& MsgFlag.cmdTypeMask
    type ≠ MsgFlag.subscribe ∧ type ≠ MsgFlag.cancel ∧ (stack.recognises = true → type = 0) := by
  cases stack with
  | zmtp1_0 =>
    rw [flagsRead, UInt8.and_assoc]
    simp only [show MsgFlag.more &&& MsgFlag.cmdTypeMask = 0 from rfl, UInt8.and_zero]
    decide
  | zmtp2_0 | zmtp3_0 | zmtp3_1 =>
    simp only [flagsRead, msgFlags, recognises]
    split <;> split <;> decide
  | ws =>
    simp only [flagsRead, wsMsgFlags, recognises]
    split
    · split <;> split <;> decide
    · cases opcode <;> decide

variable {frames : Set PeerFrame}

theorem Decodes.untyped (decoded : stack.Decodes box easy frames y) :
    y.isSubscribe = false ∧ y.isCancel = false ∧
      (stack.recognises = true → y.flags &&& MsgFlag.cmdTypeMask = 0) := by
  obtain ⟨f, -, k, decoded⟩ := decoded
  obtain ⟨subscribe, cancel, untyped⟩ := stack.type_flagsRead f.opcode f.flags
  have same : y.flags &&& MsgFlag.cmdTypeMask =
      stack.flagsRead f.opcode f.flags &&& MsgFlag.cmdTypeMask ∨
        y.flags &&& MsgFlag.cmdTypeMask = 0 := by
    unfold decode at decoded
    split at decoded
    · cases decoded
      exact .inl rfl
    · split at decoded
      · cases decoded
        exact .inl rfl
      · exact type_decodeBy decoded
    · exact type_decodeBy decoded
  rcases same with same | none
  · simpa [Msg.isSubscribe, Msg.isCancel, same] using ⟨subscribe, cancel, untyped⟩
  · obtain ⟨subscribe, cancel, -⟩ := Msg.types_of_untyped none
    exact ⟨subscribe, cancel, fun _ => none⟩

/-- What the engine does to a command for the session: it says whether it is a subscription. -/
structure Types (stack : Stack) (y z : Msg) : Prop where
  asks : z.isSubscription = y.isSubscription
  command : z.command = y.command
  more : z.more = y.more
  forwarded : y.command = true →
    (z.forwarded = true ↔ stack.recognises = true ∧ y.isSubscription = true)

theorem Decodes.types (decoded : stack.Decodes box easy frames y) :
    stack.Types y (stack.command y) := by
  obtain ⟨subscribe, cancel, untyped⟩ := decoded.untyped
  by_cases named : stack.recognises = true ∧ y.command = true
  · have known : stack.command y = y.named := by
      cases stack <;> simp_all [Stack.command, recognises]
    have typed (type : UInt8) (within : type &&& MsgFlag.cmdTypeMask = type)
        (apart : type &&& MsgFlag.command = 0) (apart' : type &&& MsgFlag.more = 0)
        (asks : y.isSubscription = (type == MsgFlag.subscribe || type == MsgFlag.cancel)) :
        stack.Types y { y with flags := y.flags ||| type } := by
      obtain ⟨type', command⟩ := Msg.typed type (untyped named.1) within apart
      refine ⟨rfl, command, by rw [Msg.more, Msg.more, or_and_of_apart _ apart'], fun _ => ?_⟩
      simp [Msg.forwarded, command, Msg.isSubscribe, Msg.isCancel, type', asks, named]
    have ping (asks : y.isSubscription = true) : y.isNamed [80, 73, 78, 71] = false :=
      Msg.isNamed_only _ asks (by decide) (by decide)
    have pong (asks : y.isSubscription = true) : y.isNamed [80, 79, 78, 71] = false :=
      Msg.isNamed_only _ asks (by decide) (by decide)
    rw [known, Msg.named]
    split
    · exact typed _ rfl rfl rfl (Bool.eq_false_iff.mpr fun asks => by simp_all)
    · split
      · exact typed _ rfl rfl rfl (Bool.eq_false_iff.mpr fun asks => by simp_all)
      · split
        · exact typed _ rfl rfl rfl (by simp_all [Msg.isSubscription])
        · split
          · exact typed _ rfl rfl rfl (by simp_all [Msg.isSubscription])
          · exact ⟨rfl, rfl, rfl, by simp_all [Msg.forwarded, Msg.isSubscription]⟩
  · have plain : stack.command y = y := by
      cases stack <;> simp_all [Stack.command, recognises]
    rw [plain]
    exact ⟨rfl, rfl, rfl, fun command => by simp_all [Msg.forwarded]⟩

end Stack

/-- What is written to the pipe, if anything, is not a command. -/
def Session.Clean (s t : Session μ) : Prop :=
  t.pair = s.pair ∨ ∃ m lock ok, m.command = false ∧ s.pair.write .first m lock = .ok (ok, t.pair)

theorem Session.pushMsg_clean (harmless : m.forwarded = true → m.command = false)
    (s : Session μ) :
    wp (fun _ => True) (Session.pushMsg m) (fun _ t => s.Clean t) s := by
  simp only [Session.pushMsg, wp_bind, wp_get]
  refine wp_ite (fun _ => .inl rfl) fun kept => wp_ite (fun _ => ?_) fun _ => .inl rfl
  have plain : m.command = false := by
    apply harmless
    simpa only [Msg.forwarded, Bool.not_eq_true', Bool.not_eq_true] using kept
  simp only [Session.pipe, wp_bind, wp_zoom]
  unfold wp
  split
  · rename_i ok pair written
    exact wp_ite (fun _ => .inr ⟨m, _, ok, plain, written⟩) fun _ => .inr ⟨m, _, ok, plain, written⟩
  · trivial

theorem ReqSession.pushMsg_clean (s : ReqSession μ) :
    wp (fun _ => True) (pushMsg m) (fun _ t => s.session.Clean t.session) s := by
  refine wp_ite (fun _ => .inl rfl) fun data => ?_
  have pushed := Session.pushMsg_clean (m := m) (fun _ => by simpa using data) s.session
  have entered (state : ReqState) :
      wp (fun _ => True) (enter state m) (fun _ t => s.session.Clean t.session) s := by
    simpa only [enter, base, wp_bind, wp_modify, wp_zoom] using pushed
  simp only [wp_bind, wp_get]
  split
  · exact wp_ite (fun _ => entered _) fun _ => wp_ite (fun _ => entered _) fun _ => .inl rfl
  · exact wp_ite (fun _ => entered _) fun _ => .inl rfl
  · exact wp_ite (fun _ => wp_zoom.mpr pushed) fun _ =>
      wp_ite (fun _ => entered _) fun _ => .inl rfl

theorem DishSession.pushMsg_clean (harmless : m.more = false → m.forwarded = true →
    m.command = false) (s : DishSession μ) :
    wp (fun _ => True) (pushMsg m) (fun _ t => s.session.Clean t.session) s := by
  have body (m : Msg) (t : DishSession μ)
      (harmless : m.more = false → m.forwarded = true → m.command = false)
      (same : t.session = s.session) :
      wp (fun _ => True) (pushBody m) (fun _ t => s.session.Clean t.session) t := by
    refine wp_ite (fun _ => .inl (congrArg _ same)) fun single => ?_
    simp only [wp_bind, wp_zoom]
    refine wp_mono (Session.pushMsg_clean (harmless (by simpa using single)) _)
      fun r u clean => ?_
    rw [same] at clean
    exact wp_ite (fun _ => clean) fun _ => clean
  simp only [pushMsg, wp_bind, wp_get]
  split
  · exact wp_ite (fun _ => .inl rfl) fun _ => wp_ite (fun _ => .inl rfl) fun _ => .inl rfl
  · rw [wp_bind]
    refine wp_ite (fun _ => body m s harmless rfl) fun _ => ?_
    simp only [takeGroup, wp_bind, wp_get]
    split
    · trivial
    · split
      · trivial
      · rename_i given
        obtain ⟨-, ⟨⟩⟩ := (Option.ite_none_left_eq_some ..).mp given
        exact body _ _ harmless rfl

theorem RadioSession.pushMsg_clean (harmless : m.forwarded = true → m.command = false)
    (s : RadioSession μ) :
    wp (fun _ => True) (pushMsg m) (fun _ t => s.session.Clean t.session) s := by
  have base (m : Msg) (harmless : m.forwarded = true → m.command = false) :
      wp (fun _ => True) (base m) (fun _ t => s.session.Clean t.session) s :=
    wp_zoom.mpr (Session.pushMsg_clean harmless _)
  have joinLeave (type : MsgType) (name : Nat) :
      wp (fun _ => True) (pushJoinLeave type name m) (fun _ t => s.session.Clean t.session) s := by
    unfold pushJoinLeave
    split
    · trivial
    · rename_i given
      obtain ⟨-, ⟨⟩⟩ := (Option.ite_none_left_eq_some ..).mp given
      exact base _ fun _ => by simp [Msg.command]
  exact wp_ite (fun _ => wp_ite (fun _ => joinLeave _ _) fun _ => wp_ite (fun _ => joinLeave _ _)
    fun _ => base m harmless) fun _ => base m harmless

/-! ## Commands that get in -/

theorem Session.pushMsg_gets_in (command : m.command = true) (forwarded : m.forwarded = true) :
    wp (fun _ => False) (Session.pushMsg m) (fun _ t => ¬ Session.Clean .connected t)
      (.connected : Session μ) := by
  refine wp_mono (wp_pushMsg connected_open m) fun _ t written => ?_
  rw [forwarded] at written
  rintro (same | ⟨m', lock, ok, plain, done⟩)
  · rw [same] at written
    cases written
  · obtain ⟨pair, done', written'⟩ := connected_open.write m' lock
    obtain ⟨-, rfl⟩ := ok_pair.mp (done'.symm.trans done)
    obtain rfl : m' = m := List.singleton_inj.mp (written'.symm.trans written)
    simp [command] at plain

namespace AnySession

theorem clean_of_map {σ : Type} {x : Program Fault σ (Rc × Msg)} {class_ : σ → AnySession μ}
    {part : σ} (runs : wp (fun _ => True) x (fun _ t => s.Clean (class_ t).session) part)
    (pushed : (x part).map (fun r => (r.1, class_ r.2)) = .ok (r, t)) : s.Clean t.session := by
  obtain ⟨_, ran, same⟩ := map_ok.mp pushed
  have clean := wp_ok runs ran
  cases same
  exact clean

theorem pushMsg_clean {s : AnySession μ} (harmless : s.sessionClass ≠ .req →
      (s.sessionClass = .dish → m.more = false) → m.forwarded = true → m.command = false)
    (pushed : s.pushMsg m = .ok (r, t)) : s.session.Clean t.session := by
  cases s with
  | base s => exact clean_of_map (Session.pushMsg_clean (harmless nofun nofun) s) pushed
  | req s => exact clean_of_map (ReqSession.pushMsg_clean s) pushed
  | dish s =>
    refine clean_of_map (DishSession.pushMsg_clean (fun single => ?_) s) pushed
    exact harmless nofun fun _ => single
  | radio s => exact clean_of_map (RadioSession.pushMsg_clean (harmless nofun nofun) s) pushed

theorem gets_in_of_map {σ : Type} {x : Program Fault σ (Rc × Msg)} (class_ : σ → AnySession μ)
    {part : σ} (runs : wp (fun _ => False) x
      (fun _ t => ¬ Session.Clean .connected (class_ t).session) part) :
    ∃ r t, (x part).map (fun r => (r.1, class_ r.2)) = .ok (r, t) ∧
      ¬ Session.Clean .connected t.session := by
  obtain ⟨a, t, ran, gets_in⟩ := wp_total runs
  exact ⟨a, class_ t, by rw [ran]; rfl, gets_in⟩

theorem pushMsg_gets_in {c : SessionClass} (other : c ≠ .req) (single : c = .dish → m.more = false)
    (asks : m.isSubscription = true) (forwarded : m.forwarded = true) (command : m.command = true)
    (group : m.group = [65]) : ∃ s : AnySession μ, s.sessionClass = c ∧
      ∃ r t, s.pushMsg m = .ok (r, t) ∧ ¬ s.session.Clean t.session := by
  have pushed := Session.pushMsg_gets_in (μ := μ) command forwarded
  cases c with
  | base => exact ⟨.base .connected, rfl, gets_in_of_map .base pushed⟩
  | req => exact absurd rfl other
  | dish =>
    refine ⟨.dish { session := .connected, state := .body }, rfl, gets_in_of_map .dish ?_⟩
    have there : m.group.headD 0 ≠ 0 := by simp [group]
    simp only [DishSession.pushMsg, wp_bind, wp_get, DishSession.withGroup, if_pos there, wp_pure,
      DishSession.pushBody, single, Bool.false_eq_true, if_false, wp_zoom]
    refine wp_mono pushed fun r t gets_in => ?_
    exact wp_ite (fun _ => gets_in) fun _ => gets_in
  | radio =>
    refine ⟨.radio ⟨.connected⟩, rfl, gets_in_of_map .radio ?_⟩
    have join : m.isNamed [74, 79, 73, 78] = false :=
      Msg.isNamed_only _ asks (by decide) (by decide)
    have leave : m.isNamed [76, 69, 65, 86, 69] = false :=
      Msg.isNamed_only _ asks (by decide) (by decide)
    simp only [RadioSession.pushMsg, command, join, leave, if_true, Bool.false_eq_true, if_false,
      RadioSession.base, wp_zoom]
    exact pushed

/-- No push in the run of a stream writes a command to the pipe. -/
def KeepsOut (s : AnySession μ) (stream : List (Feed μ)) : Prop :=
  ∀ before m after answers t r u, stream = before ++ .frame m :: after →
    run before s = .ok (answers, t) → t.pushMsg m = .ok (r, u) → t.session.Clean u.session

theorem sessionClass_run {s : AnySession μ} {stream : List (Feed μ)} {answers : List (Msg × Rc)}
    (ends : run stream s = .ok (answers, t)) : t.sessionClass = s.sessionClass := by
  induction stream generalizing s answers with
  | nil =>
    cases ends
    rfl
  | cons x rest ih =>
    cases x with
    | elsewhere f => rw [ih ends, sessionClass_elsewhere]
    | frame m =>
      obtain ⟨⟨answer, s'⟩, pushed, ends⟩ := bind_ok.mp ends
      obtain ⟨⟨answers', t'⟩, later, ⟨⟩⟩ := bind_ok.mp ends
      rw [ih later, sessionClass_pushMsg pushed]

/-- The sessions of a class keep commands out of their pipes, whatever stream the peer makes of
    the frames, if and only if none of the frames is a command that they admit. A body that is
    tried again has its group. -/
theorem commands_stay_out_iff (stack : Stack) (box : Box) (easy : Bool) (c : SessionClass)
    (frames : Set Stack.PeerFrame) :
    (∀ s : AnySession μ, s.sessionClass = c → ∀ stream : List (Feed μ),
      (∀ m, .frame m ∈ stream → ∃ y group, stack.Decodes box easy frames y ∧
        m = { stack.command y with group := group }) → s.KeepsOut stream) ↔
      ∀ y, stack.Decodes box easy frames y → ¬ stack.Admits c y := by
  constructor
  · rintro keeps y decoded ⟨zmtp3, command, asks, other, single⟩
    have types := decoded.types
    obtain ⟨s, rfl, r, t, pushed, gets_in⟩ := pushMsg_gets_in (μ := μ)
      (m := { stack.command y with group := [65] }) other
      (fun dish => types.more.trans (single dish)) (types.asks.trans asks)
      ((types.forwarded command).mpr ⟨zmtp3, asks⟩) (types.command.trans command) rfl
    refine gets_in (keeps s rfl [.frame _] (fun m there => ?_) [] _ [] [] s r t rfl rfl pushed)
    cases List.mem_singleton.mp there
    exact ⟨y, [65], decoded, rfl⟩
  · rintro unnamed s rfl stream arrive before m after answers t r u rfl ends pushed
    obtain ⟨y, group, decoded, rfl⟩ := arrive m (by simp)
    have types := decoded.types
    have class_ := sessionClass_run ends
    refine pushMsg_clean (fun other single forwarded => ?_) pushed
    by_contra command
    have command : y.command = true := types.command.symm.trans ((Bool.not_eq_false _).mp command)
    obtain ⟨zmtp3, asks⟩ := (types.forwarded command).mp forwarded
    exact unnamed y decoded ⟨zmtp3, command, asks, class_ ▸ other,
      fun dish => types.more.symm.trans (single (class_.trans dish))⟩

/-- A plain session writes a command that is named SUBSCRIBE, whatever the socket is. -/
theorem subscribe_gets_in : ∃ (y : Msg) (t : AnySession Unit), ∀ (box : Box) (k : CurveEncoding),
    (Stack.zmtp3_1 .null).decode box true k
      { flags := (Stack.zmtp3_1 .null).flagsRead .binary 4,
        data := [9, 83, 85, 66, 83, 67, 82, 73, 66, 69] } = some y ∧
    run [.frame ((Stack.zmtp3_1 .null).command y)] (.base .connected) =
      .ok ([((Stack.zmtp3_1 .null).command y, .ok)], t) ∧
    ∃ m, t.session.pair.written .first = [m] ∧ m.command = true := by
  refine ⟨_, _, fun box k => ⟨rfl, rfl, _, rfl, ?_⟩⟩
  decide

end AnySession

end Zmq
