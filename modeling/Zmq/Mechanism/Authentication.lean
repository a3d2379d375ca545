import Zmq.Mechanism.CurveServer
import Zmq.Mechanism.Null
import Zmq.Mechanism.Plain

/-! # Who is let in

A mechanism with the ZAP pipe of its session, a peer that sends what it likes and a ZAP pipe
that delivers what it likes, in any order. A mechanism that asked the ZAP handler is ready
only if it has read a reply with status 200.
-/

namespace Zmq

open Lib

def ZapMechanism.null : ZapMechanism NullMechanism where
  status := NullMechanism.status
  nextHandshakeCommand _ := fun k => .ok (k.1.nextHandshakeCommand k.2)
  processHandshakeCommand m := fun k =>
    let done := k.1.processHandshakeCommand m
    .ok (done.1, done.2, k.2)
  zapMsgAvailable := fun k => .ok (k.1.zapMsgAvailable k.2)

/-- The frames of a reply with a status code. -/
def IsReply (options : MechanismOptions) (code : List UInt8) : List Msg → Prop
  | [delimiter, version, id, status, text, user, metadata] =>
    (∀ m ∈ [delimiter, version, id, status, text, user], m.more = true) ∧
      metadata.more = false ∧ delimiter.data = [] ∧ version.data = zapVersion ∧
      id.data = zapId ∧ status.data = code ∧
      ∃ routing, (parseMetadata options metadata.data routing).1 = true
  | _ => False

def ZapPipe.taken (before after : ZapPipe) : List Msg :=
  before.inbound.take (before.inbound.length - after.inbound.length)

theorem ZapPipe.taken_eq {before after : ZapPipe} {frames : List Msg}
    (read : before.inbound = frames ++ after.inbound) : before.taken after = frames := by
  simp [taken, read]

/-- A mechanism, its ZAP pipe and the frames that each call took from the pipe. -/
structure Guarded (M : Type) where
  mechanism : M
  zap : ZapPipe
  taken : List (List Msg) := []

inductive GuardAction where
  | next (random : List UInt8)
  | process (m : Msg)
  | zapMsgAvailable
  /-- A frame arrives on the ZAP pipe. -/
  | arrives (frame : Msg)
  /-- A ZAP handler binds its socket or closes it. -/
  | bound (handler : Bool)

namespace Guarded

variable {M : Type} (mech : ZapMechanism M)

def call {α : Type} (s : Guarded M) (x : MechanismM M α) : Except Fault (Guarded M) := do
  let (_, m, z) ← x (s.mechanism, s.zap)
  .ok ⟨m, z, s.taken ++ [s.zap.taken z]⟩

def step (s : Guarded M) : GuardAction → Except Fault (Guarded M)
  | .next random => s.call (mech.nextHandshakeCommand random)
  | .process m => s.call (mech.processHandshakeCommand m)
  | .zapMsgAvailable => s.call mech.zapMsgAvailable
  | .arrives frame => .ok { s with zap := s.zap.arrive [frame] }
  | .bound handler => .ok { s with zap := { s.zap with handler := handler } }

def Possible (s : Guarded M) : GuardAction → Prop
  | .arrives _ => s.zap.attached = true
  | _ => True

instance (s : Guarded M) (a : GuardAction) : Decidable (s.Possible a) := by
  cases a <;> dsimp only [Possible] <;> infer_instance

/-- A reply with status 200 has been read by one call. -/
def Granted (options : MechanismOptions) (s : Guarded M) : Prop :=
  ∃ frames ∈ s.taken, IsReply options okCode frames

end Guarded

/-! ## Replies -/

namespace ZapPipe

variable {z z' : ZapPipe}

theorem readZapMsg_kept :
    z.readZapMsg.2.attached = z.attached ∧ z.readZapMsg.2.outbound = z.outbound := by
  unfold readZapMsg
  split
  · split <;> exact ⟨rfl, rfl⟩
  · exact ⟨rfl, rfl⟩

theorem readZapMsg_ok {m : Msg} (read : z.readZapMsg = ((.ok, m), z')) :
    z.inbound = m :: z'.inbound := by
  unfold readZapMsg at read
  split at read
  · split at read
    · cases read
    · rename_i first rest here
      cases read
      exact here
  · cases read

theorem readReply_kept (n : Nat) (z : ZapPipe) :
    (z.readReply n).2.attached = z.attached ∧ (z.readReply n).2.outbound = z.outbound := by
  induction n generalizing z with
  | zero => exact ⟨rfl, rfl⟩
  | succ n ih =>
    have first := z.readZapMsg_kept
    simp only [readReply]
    split
    · rename_i m z' read
      rw [read] at first
      split
      · exact ⟨(ih z').1.trans first.1, (ih z').2.trans first.2⟩
      · exact first
    · rename_i read
      rw [read] at first
      exact first

def marks : Nat → List Bool
  | 0 => []
  | n + 1 => (n != 0) :: marks n

theorem readReply_ok {n : Nat} {frames : List Msg} (read : z.readReply n = ((.ok, frames), z')) :
    z.inbound = frames ++ z'.inbound ∧ frames.map Msg.more = marks n := by
  induction n generalizing z frames with
  | zero =>
    cases read
    exact ⟨rfl, rfl⟩
  | succ n ih =>
    simp only [readReply] at read
    split at read
    · rename_i m u first
      split at read
      · rename_i more
        rcases others : u.readReply n with ⟨⟨rc, rest⟩, v⟩
        rw [others] at read
        cases read
        obtain ⟨inbound, marked⟩ := ih others
        rw [readZapMsg_ok first, inbound]
        exact ⟨rfl, by simp [marks, more, marked]⟩
      · cases read
    · rename_i failed other
      simp only [Prod.mk.injEq] at read
      exact absurd read.1.1 failed

theorem zapConnect_inbound (connected : z.zapConnect = (true, z')) :
    z'.attached = true ∧ (z'.inbound = z.inbound ∨ z'.inbound = []) := by
  unfold zapConnect at connected
  split at connected
  · rename_i already
    cases connected
    exact ⟨already, .inl rfl⟩
  · split at connected
    · cases connected
      exact ⟨rfl, .inr rfl⟩
    · cases connected

theorem zapConnect_refused (connected : z.zapConnect = (false, z')) :
    z' = z ∧ z.attached = false := by
  unfold zapConnect at connected
  split at connected
  · cases connected
  · rename_i none
    split at connected
    · cases connected
    · cases connected
      exact ⟨rfl, by simpa using none⟩

end ZapPipe

/-- What a call for a reply leaves: the reply was read in full, or there is none. -/
structure Replied (options : MechanismOptions) (z : ZapPipe) (code : List UInt8) (z' : ZapPipe) :
    Prop where
  reply : ∃ frames, frames ≠ [] ∧ z.inbound = frames ++ z'.inbound ∧ IsReply options code frames
  valid : isStatusCode code = true

theorem Replied.of_connected {options : MechanismOptions} {z z' z'' : ZapPipe} {code : List UInt8}
    (replied : Replied options z' code z'') (pipe : z'.inbound = z.inbound ∨ z'.inbound = []) :
    Replied options z code z'' := by
  obtain ⟨frames, some, read, reply⟩ := replied.reply
  rcases pipe with same | none
  · exact ⟨⟨frames, some, same ▸ read, reply⟩, replied.valid⟩
  · rw [none] at read
    exact absurd (List.append_eq_nil_iff.mp read.symm).1 some

theorem Replied.taken {options : MechanismOptions} {z z' : ZapPipe} {code : List UInt8}
    (replied : Replied options z code z') : IsReply options code (z.taken z') := by
  obtain ⟨frames, -, read, reply⟩ := replied.reply
  rwa [ZapPipe.taken_eq read]

namespace ZapClient

variable {c c' : ZapClient} {z z' : ZapPipe} {rc : Rc}

theorem processReply_options (frames : List Msg) : (c.processReply frames).2.options = c.options := by
  unfold processReply
  split
  · split <;> rfl
  · rfl

theorem processReply_ok {frames : List Msg} (marked : frames.map Msg.more = ZapPipe.marks 7)
    (processed : c.processReply frames = (true, c')) :
    isStatusCode c'.statusCode = true ∧ IsReply c.options c'.statusCode frames := by
  unfold processReply at processed
  split at processed
  · rename_i delimiter version id code text user metadata
    split at processed
    · rename_i fine
      obtain ⟨empty, right, ours, valid⟩ := fine
      simp only [Prod.mk.injEq] at processed
      obtain ⟨parsed, rfl⟩ := processed
      simp only [List.map_cons, ZapPipe.marks, List.cons.injEq] at marked
      refine ⟨valid, ?_, by simpa using marked.2.2.2.2.2.2.1, empty, right, ours, rfl, _, parsed⟩
      simp [marked]
    · cases processed
  · cases processed

theorem receive_frame (run : c.receiveAndProcessZapReply z = (rc, c', z')) :
    c'.options = c.options ∧ z'.attached = z.attached ∧ z'.outbound = z.outbound := by
  have kept := z.readReply_kept 7
  unfold receiveAndProcessZapReply at run
  split at run
  · rename_i frames u read
    rw [read] at kept
    have options := c.processReply_options frames
    split at run
    all_goals
      rename_i processed
      rw [processed] at options
      cases run
      exact ⟨options, kept⟩
  · rename_i read
    rw [read] at kept
    cases run
    exact ⟨rfl, kept⟩

theorem receive_ok (run : c.receiveAndProcessZapReply z = (.ok, c', z')) :
    Replied c.options z c'.statusCode z' := by
  unfold receiveAndProcessZapReply at run
  split at run
  · rename_i frames u read
    obtain ⟨inbound, marked⟩ := ZapPipe.readReply_ok read
    split at run
    · rename_i processed
      cases run
      obtain ⟨valid, reply⟩ := processReply_ok marked processed
      refine ⟨⟨frames, ?_, inbound, reply⟩, valid⟩
      rintro rfl
      cases marked
    · cases run
  · rename_i failed read
    simp only [Prod.mk.injEq] at run
    exact absurd run.1 failed

end ZapClient

/-! ## Being let in -/

/-- `good` says of a mechanism, and of whether there is a ZAP pipe, that it lets the peer in.
    Where a call makes it so, the call has read a reply with status 200. -/
def Earned {M : Type} (options : MechanismOptions) (good : M → Bool → Prop)
    (k k' : M × ZapPipe) : Prop :=
  good k'.1 k'.2.attached → good k.1 k.2.attached ∨ IsReply options okCode (k.2.taken k'.2)

/-- All the calls on a mechanism keep `inv` and earn `good`. -/
structure Guards {M : Type} (mech : ZapMechanism M) (options : MechanismOptions) (inv : M → Prop)
    (good : M → Bool → Prop) : Prop where
  next : ∀ random k, inv k.1 → wp (fun _ => True) (mech.nextHandshakeCommand random)
    (fun _ k' => inv k'.1 ∧ Earned options good k k') k
  process : ∀ m k, inv k.1 → wp (fun _ => True) (mech.processHandshakeCommand m)
    (fun _ k' => inv k'.1 ∧ Earned options good k k') k
  zap : ∀ k, inv k.1 → wp (fun _ => True) mech.zapMsgAvailable
    (fun _ k' => inv k'.1 ∧ Earned options good k k') k

namespace Guarded

variable {M : Type} {mech : ZapMechanism M} {options : MechanismOptions} {inv : M → Prop}
  {good : M → Bool → Prop} {s t : Guarded M}

/-- Nobody has been let in without a reply. -/
structure Safe (options : MechanismOptions) (inv : M → Prop) (good : M → Bool → Prop)
    (s : Guarded M) : Prop where
  inv : inv s.mechanism
  granted : good s.mechanism s.zap.attached → s.Granted options

theorem Safe.call {α : Type} {x : MechanismM M α} (safe : s.Safe options inv good)
    (earns : wp (fun _ => True) x (fun _ k => inv k.1 ∧ Earned options good (s.mechanism, s.zap) k)
      (s.mechanism, s.zap)) (taken : s.call x = .ok t) : t.Safe options inv good := by
  obtain ⟨⟨a, m, z⟩, run, same⟩ := bind_ok.mp taken
  obtain ⟨kept, earned⟩ := wp_ok earns run
  cases same
  refine ⟨kept, fun admitted => ?_⟩
  rcases earned admitted with before | reply
  · obtain ⟨frames, member, reply⟩ := safe.granted before
    exact ⟨frames, List.mem_append_left _ member, reply⟩
  · exact ⟨_, List.mem_append_right _ (by simp), reply⟩

theorem Safe.step {a : GuardAction} (guards : Guards mech options inv good)
    (safe : s.Safe options inv good) (taken : s.step mech a = .ok t) : t.Safe options inv good := by
  cases a with
  | next random => exact safe.call (guards.next random _ safe.inv) taken
  | process m => exact safe.call (guards.process m _ safe.inv) taken
  | zapMsgAvailable => exact safe.call (guards.zap _ safe.inv) taken
  | arrives | bound =>
    cases taken
    exact ⟨safe.inv, safe.granted⟩

theorem Safe.of_reaches {m : M} {z : ZapPipe} (guards : Guards mech options inv good) (kept : inv m)
    (outside : ∀ attached, ¬ good m attached)
    (reached : Reaches (Guarded.step mech) Possible { mechanism := m, zap := z } s) :
    s.Safe options inv good := by
  apply reached.invariant
  · exact ⟨kept, fun admitted => absurd admitted (outside _)⟩
  · intro s a t safe _ taken
    exact safe.step guards taken

end Guarded

/-! ## The servers -/

namespace CommonHandshake

structure Waited (h : CommonHandshake) (z : ZapPipe) (h' : CommonHandshake) (z' : ZapPipe) :
    Prop where
  options : h'.options = h.options
  okState : h'.zapReplyOkState = h.zapReplyOkState
  state : h'.state = .waitingForZapReply ∨ h'.state = .sendingError ∨ h'.state = .errorSent ∨
    (h'.state = h.zapReplyOkState ∧ Replied h.options z okCode z')

theorem okCode_of_head {code : List UInt8} (valid : isStatusCode code = true)
    (two : code.head? = some 50) : code = okCode := by
  unfold isStatusCode at valid
  split at valid
  · cases two
    rfl
  · cases valid

theorem handleZapStatusCode_waited {h h' : CommonHandshake} {z z' : ZapPipe}
    (options : h'.options = h.options) (okState : h'.zapReplyOkState = h.zapReplyOkState)
    (replied : Replied h.options z h'.statusCode z') :
    Waited h z h'.handleZapStatusCode z' := by
  unfold handleZapStatusCode
  split
  · rename_i two
    rw [okCode_of_head replied.valid two] at replied
    exact ⟨options, okState, .inr (.inr (.inr ⟨okState, replied⟩))⟩
  · exact ⟨options, okState, .inr (.inr (.inl rfl))⟩
  · exact ⟨options, okState, .inr (.inl rfl)⟩

theorem wp_receive (h : CommonHandshake) (z : ZapPipe) :
    wp (fun _ => True) receiveAndProcessZapReply (fun _ k => Waited h z k.1 k.2) (h, z) := by
  simp only [receiveAndProcessZapReply, wp_bind]
  refine wp_assert (fun _ => trivial) fun waiting => ?_
  have waiting : h.state = .waitingForZapReply := by simpa using waiting
  rcases run : h.toZapClient.receiveAndProcessZapReply z with ⟨rc, c, z'⟩
  obtain ⟨options, -⟩ := ZapClient.receive_frame run
  cases rc with
  | ok => exact handleZapStatusCode_waited options rfl (ZapClient.receive_ok run)
  | again | failed => exact ⟨options, rfl, .inl waiting⟩

end CommonHandshake

namespace PlainServer

/-- Everything after a reply with status 200. -/
def Admits (h : PlainServer) (_ : Bool) : Prop :=
  h.state = .sendingWelcome ∨ h.state = .waitingForInitiate ∨ h.state = .sendingReady ∨
    h.state = .ready

def Own (options : MechanismOptions) (h : PlainServer) : Prop :=
  h.options = options ∧ h.zapReplyOkState = .sendingWelcome

variable {options : MechanismOptions} {h h' h'' : PlainServer} {z z' z'' : ZapPipe} {m : Msg}

theorem earned_of_waited (own : h'.Own options) (pipe : z'.inbound = z.inbound ∨ z'.inbound = [])
    (waited : CommonHandshake.Waited h' z' h'' z'') :
    h''.Own options ∧ Earned options Admits (h, z) (h'', z'') := by
  refine ⟨⟨waited.options.trans own.1, waited.okState.trans own.2⟩, fun admits => ?_⟩
  rcases waited.state with state | state | state | ⟨-, replied⟩
  · simp [Admits, state] at admits
  · simp [Admits, state] at admits
  · simp [Admits, state] at admits
  · rw [own.1] at replied
    exact .inr (replied.of_connected pipe).taken

variable {k : PlainServer × ZapPipe}

theorem earned_of_state (own : Own options k.1)
    (before : Admits h' z'.attached → Admits k.1 k.2.attached) (options' : h'.options = k.1.options)
    (okState : h'.zapReplyOkState = k.1.zapReplyOkState) :
    h'.Own options ∧ Earned options Admits k (h', z') :=
  ⟨⟨options'.trans own.1, okState.trans own.2⟩, fun admits => .inl (before admits)⟩

theorem wp_processHello (own : Own options k.1) :
    wp (fun _ => True) (processHello m)
      (fun _ k' => Own options k'.1 ∧ Earned options Admits k k') k := by
  unfold processHello
  split
  · exact earned_of_state own id rfl rfl
  · simp only [wp_bind, wp_get]
    rcases connect : k.2.zapConnect with ⟨connected, z⟩
    refine wp_ite (fun yes => ?_) fun _ => earned_of_state own id rfl rfl
    obtain rfl : connected = true := yes
    obtain ⟨-, pipe⟩ := ZapPipe.zapConnect_inbound connect
    rw [wp_bind, wp_set, wp_bind]
    apply wp_mono (CommonHandshake.wp_receive _ _)
    intro rc k' waited
    refine earned_of_waited ?_ ?_ waited
    · exact own
    · exact pipe

theorem wp_processInitiate (own : Own options k.1) (waiting : k.1.state = .waitingForInitiate) :
    wp (fun _ => True) (processInitiate m)
      (fun _ k' => Own options k'.1 ∧ Earned options Admits k k') k := by
  refine wp_ite (fun _ => ?_) fun _ => earned_of_state own id rfl rfl
  exact earned_of_state own (fun _ => .inr (.inl waiting)) rfl rfl

theorem guards : Guards .plain options (Own options) Admits where
  next random k own := by
    simp only [ZapMechanism.plain, nextHandshakeCommand, wp_bind, wp_get]
    cases state : k.1.state with
    | sendingWelcome => exact earned_of_state own (fun _ => .inl state) rfl rfl
    | sendingReady => exact earned_of_state own (fun _ => .inr (.inr (.inl state))) rfl rfl
    | sendingError =>
      simp only [CommonHandshake.produceError, wp_bind]
      refine wp_assert (fun _ => trivial) fun _ => ?_
      exact earned_of_state own (by simp [Admits]) rfl rfl
    | _ =>
      exact earned_of_state own id rfl rfl
  process m k own := by
    simp only [ZapMechanism.plain, processHandshakeCommand, consumed, wp_bind, wp_get]
    cases state : k.1.state with
    | waitingForHello => exact wp_processHello own
    | waitingForInitiate => exact wp_processInitiate own state
    | _ =>
      exact earned_of_state own id rfl rfl
  zap k own := by
    simp only [ZapMechanism.plain, CommonHandshake.zapMsgAvailable, wp_bind]
    apply wp_mono (CommonHandshake.wp_receive k.1 k.2)
    intro rc k' waited
    exact earned_of_waited own (.inl rfl) waited

theorem wp_processHello_sends {username password : List UInt8}
    (found : credentials m = some (username, password)) (connects : z.zapConnect.1 = true) :
    wp (fun _ => False) (processHello m) (fun rc k => k.2.outbound = z.zapConnect.2.outbound ++
      h.request [80, 76, 65, 73, 78] [username, password] ∧
      (z.inbound = [] → rc = .ok ∧ k.1.state = .waitingForZapReply)) (h, z) := by
  rcases connect : z.zapConnect with ⟨connected, z₁⟩
  rw [connect] at connects
  obtain rfl : connected = true := connects
  obtain ⟨attached, pipe⟩ := ZapPipe.zapConnect_inbound connect
  simp only [processHello, found, wp_bind, wp_get, connect, if_true, wp_set,
    CommonHandshake.receiveAndProcessZapReply]
  refine wp_assert (fun waiting => waiting rfl) fun _ => ?_
  generalize sent : h.sendZapRequest [80, 76, 65, 73, 78] [username, password] z₁ = z₂
  rcases run : h.toZapClient.receiveAndProcessZapReply z₂ with ⟨rc, c, z₃⟩
  obtain ⟨-, -, outbound⟩ := ZapClient.receive_frame run
  refine ⟨outbound.trans (sent ▸ rfl), fun none => ?_⟩
  have none : z₁.inbound = [] := by
    rcases pipe with same | fresh
    · exact same.trans none
    · exact fresh
  have again : z₂.readReply 7 = ((.again, []), { z₂ with inActive := false }) := by
    simp [← sent, ZapClient.sendZapRequest, ZapPipe.readReply, ZapPipe.readZapMsg, attached, none]
  rw [ZapClient.receiveAndProcessZapReply, again] at run
  cases run
  exact ⟨rfl, rfl⟩

/-- A user name and a password of at most 255 bytes each arrive at the ZAP handler as they are, and
    nothing but such a command is accepted. -/
theorem hello_carries_credentials (h : PlainServer) (z : ZapPipe) :
    (∀ username password : List UInt8, username.length ≤ 255 → password.length ≤ 255 →
      ∃ hello, produceHello username password = .ok hello ∧
        credentials hello = some (username, password) ∧
        (z.zapConnect.1 = true → ∃ rc k, processHello hello (h, z) = .ok (rc, k) ∧
          k.2.outbound = z.zapConnect.2.outbound ++
            h.request [80, 76, 65, 73, 78] [username, password] ∧
          (z.inbound = [] → rc = .ok ∧ k.1.state = .waitingForZapReply))) ∧
    ∀ m k, processHello m (h, z) = .ok (.ok, k) → ∃ username password : List UInt8,
      m.data = plainHello ++ .ofNat username.length :: username ++
        .ofNat password.length :: password ∧ username.length ≤ 255 ∧ password.length ≤ 255 := by
  constructor
  · intro username password short short'
    refine ⟨_, if_pos ⟨short, short'⟩, ?_, fun connects =>
      wp_total (wp_processHello_sends ?_ connects)⟩
    all_goals exact credentials_eq_some.mpr ⟨rfl, short, short'⟩
  · intro m k accepted
    cases found : credentials m with
    | none =>
      rw [processHello, found] at accepted
      cases accepted
    | some parts => exact ⟨parts.1, parts.2, credentials_eq_some.mp found⟩

theorem hello_carries_credentials_to_handler : ∃ h hello k, new { zapDomain := [103] } [] = .ok h ∧
    produceHello [97, 100, 109, 105, 110] [115, 51] = .ok hello ∧
    processHello hello (h, { handler := true }) = .ok (.ok, k) ∧
    k.2.outbound = h.request [80, 76, 65, 73, 78] [[97, 100, 109, 105, 110], [115, 51]] := by
  obtain ⟨h, made⟩ : ∃ h, new { zapDomain := [103] } [] = .ok h := ⟨_, rfl⟩
  obtain ⟨hello, produced, -, sends⟩ := (hello_carries_credentials h { handler := true }).1
    [97, 100, 109, 105, 110] [115, 51] (by decide) (by decide)
  obtain ⟨rc, k, processed, request, waits⟩ := sends rfl
  obtain ⟨rfl, -⟩ := waits rfl
  exact ⟨h, hello, k, made, produced, processed, request⟩

end PlainServer

namespace NullMechanism

/-- READY has gone out over a connection with a ZAP pipe, or will. -/
def Admits (n : NullMechanism) (attached : Bool) : Prop :=
  attached = true ∧
    (n.readyCommandSent = true ∨ n.zapReplyReceived = true ∧ n.statusCode = okCode)

def Own (options : MechanismOptions) (n : NullMechanism) : Prop :=
  n.options = options ∧ options.zapRequired = true

variable {options : MechanismOptions} {n n' : NullMechanism} {z z' z'' : ZapPipe} {rc : Rc}

theorem earned_of_same (own : n.Own options) (options' : n'.options = n.options)
    (before : n'.Admits z'.attached → n.Admits z.attached) :
    n'.Own options ∧ Earned options Admits (n, z) (n', z') :=
  ⟨⟨options'.trans own.1, own.2⟩, fun admits => .inl (before admits)⟩

theorem receiveReply_frame (run : n.receiveReply z = (rc, n', z')) :
    n'.options = n.options ∧ z'.attached = z.attached ∧
      n'.readyCommandSent = n.readyCommandSent ∧
      n'.zapReplyReceived = (n.zapReplyReceived || rc == .ok) := by
  rcases received : n.receiveAndProcessZapReply z with ⟨rc', c, u⟩
  obtain ⟨options, attached, -⟩ := ZapClient.receive_frame received
  simp only [receiveReply, received] at run
  cases run
  exact ⟨options, attached, rfl, rfl⟩

theorem receiveReply_ok (run : n.receiveReply z = (.ok, n', z')) :
    Replied n.options z n'.statusCode z' := by
  rcases received : n.receiveAndProcessZapReply z with ⟨rc', c, u⟩
  simp only [receiveReply, received] at run
  cases run
  exact ZapClient.receive_ok received

theorem produceCommand_frame (n : NullMechanism) :
    n.produceCommand.2.options = n.options ∧ n.produceCommand.2.statusCode = n.statusCode := by
  unfold produceCommand
  split
  · split <;> exact ⟨rfl, rfl⟩
  · exact ⟨rfl, rfl⟩

theorem produceCommand_admits {attached : Bool} (received : n.zapReplyReceived = true)
    (unsent : n.readyCommandSent = false) (admits : n.produceCommand.2.Admits attached) :
    attached = true ∧ n.statusCode = okCode := by
  obtain ⟨there, sent | ⟨-, code⟩⟩ := admits
  · refine ⟨there, ?_⟩
    by_contra other
    unfold produceCommand at sent
    rw [if_pos (by simp [received, other])] at sent
    split at sent <;> simp [unsent] at sent
  · exact ⟨there, (produceCommand_frame n).2 ▸ code⟩

theorem nextHandshakeCommand_earned (own : n.Own options) :
    (n.nextHandshakeCommand z).2.1.Own options ∧
      Earned options Admits (n, z) (n.nextHandshakeCommand z).2 := by
  unfold nextHandshakeCommand
  split
  · exact earned_of_same own rfl id
  · rename_i unsent
    have unsent : n.readyCommandSent = false := by simp_all
    split
    · rename_i asks
      split
      · exact earned_of_same own rfl id
      · split
        · rename_i z₁ connect
          obtain ⟨-, pipe⟩ := ZapPipe.zapConnect_inbound connect
          dsimp only
          split
          · rename_i n₁ z₂ run
            obtain ⟨options₁, attached, sent, received⟩ := receiveReply_frame run
            have frame := produceCommand_frame n₁
            refine ⟨⟨(frame.1.trans options₁).trans own.1, own.2⟩, fun admits => .inr ?_⟩
            obtain ⟨-, code⟩ := produceCommand_admits (by simp [received])
              (sent.trans unsent) admits
            have replied := receiveReply_ok run
            rw [code] at replied
            have replied := replied.of_connected pipe
            rw [← own.1]
            exact replied.taken
          · rename_i rc n₁ z₂ failed run
            obtain ⟨options₁, attached, sent, received⟩ := receiveReply_frame run
            refine ⟨⟨options₁.trans own.1, own.2⟩, fun admits => ?_⟩
            have unread : n₁.zapReplyReceived = false := by
              simp_all
            exact absurd admits (by simp [Admits, sent, unsent, unread])
        · rename_i z₁ connect
          obtain ⟨rfl, none⟩ := ZapPipe.zapConnect_refused connect
          split
          · exact earned_of_same own rfl id
          · refine ⟨⟨(produceCommand_frame n).1.trans own.1, own.2⟩, fun admits => ?_⟩
            exact absurd admits.1 (by simp [none])
    · rename_i asked
      have received : n.zapReplyReceived = true := by
        have required := own.2
        rw [← own.1] at required
        simp_all
      apply earned_of_same own (produceCommand_frame n).1
      intro admits
      obtain ⟨there, code⟩ := produceCommand_admits received unsent admits
      exact ⟨there, .inr ⟨received, code⟩⟩

theorem processHandshakeCommand_frame (n : NullMechanism) (m : Msg) :
    let n' := (n.processHandshakeCommand m).2
    n'.options = n.options ∧ n'.readyCommandSent = n.readyCommandSent ∧
      n'.zapReplyReceived = n.zapReplyReceived ∧ n'.statusCode = n.statusCode := by
  have error : (n.processErrorCommand m).2 = n ∨
      (n.processErrorCommand m).2 = { n with errorCommandReceived := true } := by
    unfold processErrorCommand
    split
    · exact .inl rfl
    · split
      · exact .inl rfl
      · exact .inr rfl
  unfold processHandshakeCommand
  split
  · exact ⟨rfl, rfl, rfl, rfl⟩
  · split
    · rcases made : n.processReadyCommand m with ⟨well, n'⟩
      obtain rfl : (n.processReadyCommand m).2 = n' := by rw [made]
      cases well <;> exact ⟨rfl, rfl, rfl, rfl⟩
    · split
      · rcases made : n.processErrorCommand m with ⟨well, n'⟩
        rw [made] at error
        rcases error with rfl | rfl <;> cases well <;> exact ⟨rfl, rfl, rfl, rfl⟩
      · exact ⟨rfl, rfl, rfl, rfl⟩

theorem receiveReply_earned (own : n.Own options) (unread : n.zapReplyReceived = false)
    (run : n.receiveReply z = (rc, n', z')) :
    n'.Own options ∧ Earned options Admits (n, z) (n', z') := by
  obtain ⟨options', attached, sent, received⟩ := receiveReply_frame run
  refine ⟨⟨options'.trans own.1, own.2⟩, ?_⟩
  rintro ⟨there, ready | ⟨counts, code⟩⟩
  · exact .inl ⟨attached ▸ there, .inl (sent ▸ ready)⟩
  · rw [received, unread] at counts
    obtain rfl : rc = .ok := by simpa using counts
    have replied := receiveReply_ok run
    rw [code, own.1] at replied
    exact .inr replied.taken

theorem zapMsgAvailable_earned (own : n.Own options) :
    (n.zapMsgAvailable z).2.1.Own options ∧
      Earned options Admits (n, z) (n.zapMsgAvailable z).2 := by
  unfold zapMsgAvailable
  split
  · exact earned_of_same own rfl id
  · rename_i unread
    rcases run : n.receiveReply z with ⟨rc, n', z'⟩
    have earned := receiveReply_earned own (by simpa using unread) run
    cases rc <;> exact earned

theorem guards : Guards .null options (Own options) Admits where
  next random k own := nextHandshakeCommand_earned own
  process m k own := by
    obtain ⟨options', sent, received, code⟩ := processHandshakeCommand_frame k.1 m
    apply earned_of_same own options'
    simp [Admits, sent, received, code]
  zap k own := zapMsgAvailable_earned own

end NullMechanism

namespace CurveServer

/-- READY is going out over a connection with a ZAP pipe, or has. -/
def Admits (s : CurveServer) (attached : Bool) : Prop :=
  attached = true ∧ (s.state = .sendingReady ∨ s.state = .ready)

def Own (options : MechanismOptions) (s : CurveServer) : Prop :=
  s.options = options ∧ s.zapReplyOkState = .sendingReady ∧
    (options.zapRequired || !options.zapEnforceDomain) = true

variable {options : MechanismOptions} {box : Box} {k k' : CurveServer × ZapPipe}
  {metadata : List UInt8} {m : Msg}

abbrev Fine (options : MechanismOptions) (k k' : CurveServer × ZapPipe) : Prop :=
  k'.1.Own options ∧ Earned options Admits k k'

theorem fine_of_same (own : k.1.Own options) (options' : k'.1.options = k.1.options)
    (okState : k'.1.zapReplyOkState = k.1.zapReplyOkState)
    (before : k'.1.Admits k'.2.attached → k.1.Admits k.2.attached) : Fine options k k' :=
  ⟨⟨options'.trans own.1, okState.trans own.2.1, own.2.2⟩, fun admits => .inl (before admits)⟩

theorem wp_common_receive {z : ZapPipe} {s : CurveServer} (own : s.Own options)
    (pipe : z.inbound = k.2.inbound ∨ z.inbound = []) :
    wp (fun _ => True) (common CommonHandshake.receiveAndProcessZapReply)
      (fun _ k' => Fine options k k') (s, z) := by
  rw [common, wp_zoom]
  apply wp_mono (CommonHandshake.wp_receive _ _)
  rintro rc ⟨h, z'⟩ waited
  have waited : CommonHandshake.Waited s.toCommonHandshake z h z' := waited
  refine ⟨⟨waited.options.trans own.1, waited.okState.trans own.2.1, own.2.2⟩, ?_⟩
  rintro ⟨-, admits⟩
  rcases waited.state with state | state | state | ⟨-, replied⟩
  · simp [state] at admits
  · simp [state] at admits
  · simp [state] at admits
  · rw [own.1] at replied
    exact .inr (replied.of_connected pipe).taken

theorem wp_authenticate {clientKey : List UInt8} (own : k.1.Own options) :
    wp (fun _ => True) (authenticate clientKey metadata) (fun _ k' => Fine options k k') k := by
  simp only [authenticate]
  have asks : (k.1.options.zapRequired || !k.1.options.zapEnforceDomain) = true := by
    rw [own.1]
    exact own.2.2
  refine wp_ite (fun _ => ?_) fun other => absurd asks other
  rcases connect : k.2.zapConnect with ⟨connected, z⟩
  refine wp_ite (fun yes => ?_) fun no => wp_ite (fun legacy => ?_) fun _ => ?_
  · obtain rfl : connected = true := yes
    obtain ⟨-, pipe⟩ := ZapPipe.zapConnect_inbound connect
    simp only [wp_bind, wp_set]
    apply wp_mono (wp_common_receive (k := k) _ _)
    · intro rc k' fine
      exact wp_ite (fun _ => fine) fun _ => fine
    · exact own
    · exact pipe
  · obtain rfl : connected = false := by simpa using no
    obtain ⟨-, none⟩ := ZapPipe.zapConnect_refused connect
    refine ⟨own, fun admits => ?_⟩
    exact absurd admits.1 (by simp [none])
  · exact fine_of_same own rfl rfl id

theorem wp_processHello (own : k.1.Own options) :
    wp (fun _ => True) (processHello box m) (fun _ k' => Fine options k k') k := by
  refine wp_ite (fun _ => fine_of_same own rfl rfl id) fun _ => ?_
  simp only [update, wp_bind, wp_get, wp_modify]
  split
  · exact fine_of_same own rfl rfl id
  · simp only [wp_bind]
    exact fine_of_same own rfl rfl (by simp [Admits])

theorem wp_processInitiate (own : k.1.Own options) :
    wp (fun _ => True) (processInitiate box m) (fun _ k' => Fine options k k') k := by
  simp only [processInitiate, update]
  refine wp_ite (fun _ => fine_of_same own rfl rfl id) fun _ => ?_
  refine wp_ite (fun _ => fine_of_same own rfl rfl id) fun _ => ?_
  split
  · exact fine_of_same own rfl rfl id
  · split
    · trivial
    · simp only [wp_bind, wp_modify]
      refine wp_mono (wp_authenticate ?_) fun rc k' fine => fine
      exact own

structure Still (k k' : CurveServer × ZapPipe) : Prop where
  options : k'.1.options = k.1.options
  okState : k'.1.zapReplyOkState = k.1.zapReplyOkState
  state : k'.1.state = k.1.state
  zap : k'.2 = k.2

theorem wp_proceed {state : HandshakeState} {x : MechanismM CurveServer (Rc × Msg)}
    (own : k.1.Own options) (still : wp (fun _ => True) x (fun _ k' => Still k k') k)
    (onward : state = .sendingReady ∨ state = .ready → k.1.state = .sendingReady) :
    wp (fun _ => True) (proceed state x) (fun _ k' => Fine options k k') k := by
  simp only [proceed, wp_bind]
  apply wp_mono still
  intro made k' still
  refine wp_ite (fun _ => ?_) fun _ => ?_
  · refine fine_of_same own still.options still.okState ?_
    rintro ⟨there, admits⟩
    exact ⟨still.zap ▸ there, .inl (onward admits)⟩
  · refine fine_of_same own still.options still.okState ?_
    rintro ⟨there, admits⟩
    exact ⟨still.zap ▸ there, still.state ▸ admits⟩

theorem wp_produceWelcome {random : List UInt8} :
    wp (fun _ => True) (produceWelcome box random) (fun _ k' => Still k k') k := by
  simp only [produceWelcome, update, wp_bind, wp_get, wp_modify]
  split <;> exact ⟨rfl, rfl, rfl, rfl⟩

theorem wp_produceError :
    wp (fun _ => True) (common CommonHandshake.produceError) (fun _ k' => Still k k') k := by
  simp only [common, CommonHandshake.produceError, wp_zoom, wp_bind]
  exact wp_assert (fun _ => trivial) fun _ => ⟨rfl, rfl, rfl, rfl⟩

theorem guards : Guards (.curve box) options (Own options) Admits where
  next random k own := by
    simp only [ZapMechanism.curve, nextHandshakeCommand, wp_bind, wp_get]
    cases state : k.1.state with
    | sendingWelcome => exact wp_proceed own wp_produceWelcome (by simp)
    | sendingReady => exact wp_proceed own ⟨rfl, rfl, rfl, rfl⟩ fun _ => state
    | sendingError => exact wp_proceed own wp_produceError (by simp)
    | _ =>
      exact fine_of_same own rfl rfl id
  process m k own := by
    simp only [ZapMechanism.curve, processHandshakeCommand, consumed, wp_bind, wp_get]
    cases state : k.1.state with
    | waitingForHello => exact wp_processHello own
    | waitingForInitiate => exact wp_processInitiate own
    | _ =>
      exact fine_of_same own rfl rfl id
  zap k own := by
    simp only [ZapMechanism.curve, common, CommonHandshake.zapMsgAvailable, wp_zoom, wp_bind]
    have received := wp_common_receive (k := k) own (.inl rfl)
    rwa [common, wp_zoom] at received

end CurveServer

theorem CommonHandshake.state_of_ready {h : CommonHandshake} (ready : h.status = .ready) :
    h.state = .ready := by
  unfold status at ready
  split at ready
  · assumption
  · cases ready
  · cases ready

theorem NullMechanism.sent_of_ready {n : NullMechanism} (ready : n.status = .ready) :
    n.readyCommandSent = true := by
  unfold status at ready
  split at ready
  · rename_i both
    simp_all
  · split at ready <;> cases ready

/-! ## All of them -/

/-- A PLAIN server, and a CURVE server or a NULL mechanism that is to ask the ZAP handler and
    has a ZAP pipe, is ready only after it has read a reply with status 200. -/
theorem ready_only_if_granted :
    (∀ options address server z s, PlainServer.new options address = .ok server →
      Reaches (Guarded.step .plain) Guarded.Possible { mechanism := server, zap := z } s →
      ZapMechanism.plain.status s.mechanism = .ready → s.Granted options) ∧
    (∀ box options address keys memory downgradeSub z s,
      (options.zapRequired || !options.zapEnforceDomain) = true →
      Reaches (Guarded.step (.curve box)) Guarded.Possible
        { mechanism := CurveServer.new options address keys memory downgradeSub, zap := z } s →
      s.zap.attached = true → (ZapMechanism.curve box).status s.mechanism = .ready →
      s.Granted options) ∧
    ∀ options address z s, options.zapRequired = true →
      Reaches (Guarded.step .null) Guarded.Possible
        { mechanism := NullMechanism.new options address, zap := z } s →
      s.zap.attached = true → ZapMechanism.null.status s.mechanism = .ready →
      s.Granted options := by
  refine ⟨?_, ?_, ?_⟩
  · intro options address server z s made reached ready
    unfold PlainServer.new at made
    split at made
    · cases made
    · cases made
      have safe := Guarded.Safe.of_reaches PlainServer.guards ⟨rfl, rfl⟩
        (by simp [PlainServer.Admits]) reached
      exact safe.granted (.inr (.inr (.inr (CommonHandshake.state_of_ready ready))))
  · intro box options address keys memory downgradeSub z s asks reached attached ready
    have safe := Guarded.Safe.of_reaches CurveServer.guards ⟨rfl, rfl, asks⟩
      (by simp [CurveServer.Admits, CurveServer.new]) reached
    exact safe.granted ⟨attached, .inr (CommonHandshake.state_of_ready ready)⟩
  · intro options address z s required reached attached ready
    have safe := Guarded.Safe.of_reaches NullMechanism.guards ⟨rfl, required⟩
      (by simp [NullMechanism.Admits, NullMechanism.new]) reached
    exact safe.granted ⟨attached, .inl (NullMechanism.sent_of_ready ready)⟩

def replyFrames (code text user metadata : List UInt8) : List Msg :=
  [[], zapVersion, zapId, code, text, user].map
    (fun body => { Msg.initSize body with flags := MsgFlag.more }) ++ [Msg.initSize metadata]

def replies (code : List UInt8) : List GuardAction :=
  (replyFrames code [] [] []).map .arrives ++ [.zapMsgAvailable]

def someServer : CurveServer :=
  .new {} [] ⟨List.replicate 32 2, List.replicate 32 8, List.replicate 32 8⟩ [] false

/-- HELLO and INITIATE of a client that talks to that server. -/
def someCommands : Except Fault (Msg × Msg) := do
  let mech := ZapMechanism.curve .transparent
  let client := CurveClient.new {} CurveClient.someKeys [] false
  let ((_, hello), client) := client.nextHandshakeCommand .transparent []
  let (_, k) ← mech.processHandshakeCommand hello (someServer, { handler := true })
  let ((_, welcome), _) ← mech.nextHandshakeCommand (List.replicate 64 9) k
  let (_, client) ← client.processHandshakeCommand .transparent welcome
  let ((_, initiate), _) := client.nextHandshakeCommand .transparent (List.replicate 16 9)
  .ok (hello, initiate)

theorem ready_only_if_granted_each :
    (∃ s, Reaches (Guarded.step .plain) Guarded.Possible
        { mechanism := { options := {}, zapReplyOkState := .sendingWelcome },
          zap := { handler := true } } s ∧ s.Granted {}) ∧
    (∃ s, Reaches (Guarded.step (.curve .transparent)) Guarded.Possible
        { mechanism := someServer, zap := { handler := true } } s ∧ s.Granted {}) ∧
    ∃ s, Reaches (Guarded.step .null) Guarded.Possible
        { mechanism := .new { zapDomain := [1] } [], zap := { handler := true } } s ∧
      s.Granted { zapDomain := [1] } := by
  refine ⟨?_, ?_, ?_⟩
  · obtain ⟨s, reached, ready⟩ := exists_reaches (Guarded.step .plain) Guarded.Possible
      { mechanism := { options := {}, zapReplyOkState := .sendingWelcome },
        zap := { handler := true } }
      ([.process { data := plainHello ++ [1, 97, 1, 98] }] ++ replies okCode ++
        [.next [], .process { data := plainInitiate }, .next []])
      (fun s => ZapMechanism.plain.status s.mechanism = .ready) (by decide +kernel)
    exact ⟨s, reached, ready_only_if_granted.1 _ _ _ _ _ rfl reached ready⟩
  · obtain ⟨s, reached, attached, ready⟩ := exists_reaches (Guarded.step (.curve .transparent))
      Guarded.Possible { mechanism := someServer, zap := { handler := true } }
      (match someCommands with
        | .error _ => []
        | .ok (hello, initiate) =>
          [.process hello, .next (List.replicate 64 9), .process initiate] ++ replies okCode ++
            [.next []])
      (fun s => s.zap.attached = true ∧
        (ZapMechanism.curve .transparent).status s.mechanism = .ready) (by decide +kernel)
    exact ⟨s, reached,
      ready_only_if_granted.2.1 _ _ _ _ _ _ _ _ (by decide) reached attached ready⟩
  · obtain ⟨s, reached, attached, ready⟩ := exists_reaches (Guarded.step .null) Guarded.Possible
      { mechanism := .new { zapDomain := [1] } [], zap := { handler := true } }
      ([.next []] ++ replies okCode ++ [.next [], .process { data := readyCommand }])
      (fun s => s.zap.attached = true ∧ ZapMechanism.null.status s.mechanism = .ready)
      (by decide +kernel)
    exact ⟨s, reached, ready_only_if_granted.2.2 _ _ _ _ (by decide) reached attached ready⟩

end Zmq
