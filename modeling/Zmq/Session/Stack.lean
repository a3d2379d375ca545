import Zmq.Mechanism.CurveEncoding
import Zmq.Pattern.Xpub
import Zmq.Session.Classes
import Zmq.Wire.V1
import Zmq.Wire.WsEncoder

/-! # Protocol stacks

The engines and mechanisms that two sessions can negotiate, and the stages that a subscription or
cancellation goes through between the pipe of an XSUB and that of an XPUB. It is a flag on the
message at first, and then a byte in front of the topic or a command with a name; who makes the
one of the other depends on the encoder, on the mechanism and on `_downgrade_sub`.
-/

namespace Zmq

open Lib Wire

/-- The engines with their mechanisms. -/
inductive Stack where
  | zmtp1_0
  | zmtp2_0
  | zmtp3_0 (mechanism : MechanismKind)
  | zmtp3_1 (mechanism : MechanismKind)
  /-- The protocol `ZWS2.0` is without a mechanism. -/
  | ws (mechanism : Option MechanismKind)
  deriving Repr, DecidableEq

/-- A mechanism after its handshake: NULL and PLAIN leave messages as they are, and CURVE is a
    `curve_encoding_t`, which `curve_mechanism_base_t::decode` calls for commands that have a name. -/
def Mechanism.data (box : Box) (easy : Bool) (kind : MechanismKind) : Mechanism CurveEncoding where
  status _ := .ready
  nextHandshakeCommand k := ((.failed, .init), k)
  processHandshakeCommand k m := ((.failed, m), k)
  encode k m :=
    match kind with
    | .null | .plain => ((.ok, m), k)
    | .curve => ((.ok, (k.encode box easy m).1), (k.encode box easy m).2)
  decode k m :=
    match kind with
    | .null | .plain => ((.ok, m), k)
    | .curve =>
      if m.basicCommandStructure then
        match k.decode box easy m with
        | (.ok m, k) => ((.ok, m), k)
        | (.error _, k) => ((.failed, m), k)
      else ((.failed, m), k)
  zapMsgAvailable k := (.failed, k)
  peerRoutingId _ := []
  getUserId _ := []

namespace Stack

def mechanism : Stack → Option MechanismKind
  | .zmtp1_0 | .zmtp2_0 => none
  | .zmtp3_0 kind | .zmtp3_1 kind => some kind
  | .ws kind => kind

/-- `_downgrade_sub`: only `handshake_v3_0` asks for it. -/
def downgradeSub : Stack → Bool
  | .zmtp3_0 _ => true
  | _ => false

/-- `mechanism_t::encode`, if there is a mechanism. -/
def encode (stack : Stack) (box : Box) (easy : Bool) (k : CurveEncoding) (m : Msg) : Msg :=
  match stack.mechanism with
  | none => m
  | some kind => ((Mechanism.data box easy kind).encode k m).1.2

/-- The encoder; `random` is there if it is a WebSocket client's. -/
def framing (random : Option UInt32) : Stack → Framing
  | .zmtp1_0 => v1Encoder
  | .zmtp2_0 | .zmtp3_0 _ => v2Encoder
  | .zmtp3_1 _ => v31Encoder
  | .ws _ => wsEncoder random

/-- The decoder on a whole stream. `maxmsgsize` is off, as it is by default. -/
def receive (stack : Stack) (bufSize : Nat) (zeroCopy mustMask : Bool) (reads : List Nat)
    (stream : List UInt8) : Except Fault (List Msg × List UInt8) :=
  match stack with
  | .zmtp1_0 => (Decoder.receive V1Decoder.action reads stream (V1Decoder.new bufSize none)).map
      fun r => (r.msgs, r.unread)
  | .zmtp2_0 | .zmtp3_0 _ | .zmtp3_1 _ =>
    (Decoder.receive V2Decoder.action reads stream (V2Decoder.new bufSize none zeroCopy)).map
      fun r => (r.msgs, r.unread)
  | .ws _ => (Decoder.receive WsDecoder.action reads stream
      (WsDecoder.new bufSize none zeroCopy mustMask)).map fun r => (r.msgs, r.unread)

end Stack

/-- The engine of the XPUB's session, of the one kind or the other. -/
structure Engines where
  zmtp : Engine CurveEncoding
  ws : WsEngine CurveEncoding

/-- What the engine does with a message: `push_msg_to_session` without a mechanism and
    `decode_and_push` with one. -/
def Stack.process (stack : Stack) (box : Box) (easy : Bool) (k : CurveEncoding) (engines : Engines)
    (m : Msg) (s : Session CurveEncoding) : Except Fault (Session CurveEncoding) :=
  match stack with
  | .zmtp1_0 | .zmtp2_0 | .ws none => (Session.pushMsg m s).map (·.2)
  | .zmtp3_0 kind | .zmtp3_1 kind =>
    (Engine.decodeAndPush Session.host (.data box easy kind) m
      { engine := { engines.zmtp with mechanism := some k }, world := s }).map (·.2.world)
  | .ws (some kind) =>
    (WsEngine.decodeAndPush Session.host (.data box easy kind) m
      { engine := { engines.ws with mechanism := some k }, world := s }).map (·.2.world)

/-! ## The engines -/

/-- What `process_command_message` makes of a message: a ZMTP engine gives commands their type by
    their name. -/
def Stack.command (stack : Stack) (m : Msg) : Msg :=
  match stack with
  | .zmtp3_0 _ | .zmtp3_1 _ => if m.command then m.named else m
  | .zmtp1_0 | .zmtp2_0 | .ws _ => m

section Engines

variable {μ ω : Type} {mech : Mechanism μ} {k k' : μ} {m y : Msg} {post : ω → Prop}

/-- Both engines notice a message that the session does not take, and go on. -/
theorem StreamEngine.wp_push {ν ξ : Type} {host : Host μ ω} {s : PluggedIn (StreamEngine μ ν ξ) ω}
    (pushed : wp (fun _ => False) (host.pushMsg y) (fun _ w => post w) s.world) :
    wp (fun _ => False) (call (host.pushMsg y)) (fun r t => wp (fun _ => False)
      (onlyIf (r.1 == .again) (update fun e => { e with processMsg := .pushOneThenDecodeAndPush }))
      (fun _ t => post t.world) t) s := by
  rw [call, wp_zoom]
  exact wp_mono pushed fun _ _ holds => wp_ite (fun _ => holds) fun _ => holds

theorem Engine.wp_decodeAndPush (host : Host μ ω) {s : Plugged μ ω}
    (here : s.engine.mechanism = some k) (decoded : mech.decode k m = ((.ok, y), k'))
    (quiet : y.command = true → y.named.isPing = false)
    (pushed : wp (fun _ => False) (host.pushMsg (if y.command then y.named else y))
      (fun _ w => post w) s.world) :
    wp (fun _ => False) (decodeAndPush host mech m) (fun _ t => post t.world) s := by
  simp only [decodeAndPush, ask, wp_bind, wp_engine, here, wp_update, wp_pure, decoded, if_true,
    processCommandMessage]
  cases command : y.command with
  | false =>
    rw [command] at pushed
    simp only [Bool.false_eq_true, if_false, wp_pure]
    exact StreamEngine.wp_push pushed
  | true =>
    rw [command] at pushed
    simp only [if_true, wp_bind, processHeartbeatMessage, quiet command, Bool.false_eq_true,
      if_false, wp_pure]
    exact StreamEngine.wp_push pushed

open StreamEngine in
theorem WsEngine.wp_decodeAndPush (host : Host μ ω) {s : WsPlugged μ ω}
    (here : s.engine.mechanism = some k) (data : isControl m = false)
    (decoded : mech.decode k m = ((.ok, y), k')) (quiet : isControl y = false)
    (pushed : wp (fun _ => False) (host.pushMsg y) (fun _ w => post w) s.world) :
    wp (fun _ => False) (decodeAndPush host mech m) (fun _ t => post t.world) s := by
  have nothing : processCommandMessage host mech y = pure () := by
    simp only [isControl, Bool.or_eq_false_iff] at quiet
    simp only [processCommandMessage, quiet, Bool.false_eq_true, if_false]
  have skip : (onlyIf y.command (pure ()) : WsM μ ω Unit) = pure () := by
    cases y.command <;> rfl
  simp only [decodeAndPush, decodeMsg, ask, wp_bind, wp_engine, wp_update, wp_pure, here,
    Option.isSome_some, assert, if_true, data, Bool.false_eq_true, if_false, decoded, quiet,
    Bool.not_false, Bool.and_true, nothing, skip]
  exact wp_push pushed

end Engines

/-! ## The forms of a subscription -/

/-- A message by which an XSUB asks for a topic or cancels one: with the flag that the socket sets,
    or with the byte in front that a user may write. -/
structure Asks (m : Msg) : Prop where
  command : m.command = false
  binary : isBinary m = true
  wanted : Xpub.request m ≠ .user

structure Legacy (m y : Msg) : Prop where
  untyped : y.flags &&& MsgFlag.cmdTypeMask = 0
  command : y.command = false
  data : y.data = legacyMark m ++ m.data

structure Named (m y : Msg) : Prop where
  flagged : m.isSubscribe = true ∨ m.isCancel = true
  untyped : y.flags &&& MsgFlag.cmdTypeMask = 0
  command : y.command = true
  data : y.data = commandMark m ++ m.data

section Forms

variable {m y : Msg} {topic : List UInt8}

theorem Msg.isCancel_of_isSubscribe (subscribes : m.isSubscribe = true) : m.isCancel = false := by
  simp only [isSubscribe, beq_iff_eq] at subscribes
  simp only [isCancel, subscribes]
  decide

theorem Msg.types_of_untyped (untyped : y.flags &&& MsgFlag.cmdTypeMask = 0) :
    y.isSubscribe = false ∧ y.isCancel = false ∧ WsEngine.isControl y = false := by
  simp only [isSubscribe, isCancel, WsEngine.isControl, isPing, isPong, isCloseCmd, untyped]
  decide

theorem Asks.request_eq (asks : Asks m) : Xpub.request m =
    if m.isSubscribe then .subscribe m.data else if m.isCancel then .cancel m.data
    else match m.data with
      | 0 :: topic => .cancel topic
      | 1 :: topic => .subscribe topic
      | _ => .user := by
  simp only [Xpub.request, Msg.commandBody, asks.command]
  cases m.isSubscribe <;> cases m.isCancel <;> rfl

theorem Legacy.heard (legacy : Legacy m y) (asks : Asks m) :
    y.forwarded = true ∧ Xpub.request y = Xpub.request m := by
  obtain ⟨subscribes, cancels, -⟩ := Msg.types_of_untyped legacy.untyped
  refine ⟨by simp [Msg.forwarded, legacy.command], ?_⟩
  rw [asks.request_eq]
  simp only [Xpub.request, subscribes, cancels, legacy.data, legacyMark]
  cases m.isSubscribe <;> cases m.isCancel <;> rfl

theorem Msg.typed (type : UInt8) (untyped : y.flags &&& MsgFlag.cmdTypeMask = 0)
    (within : type &&& MsgFlag.cmdTypeMask = type) (apart : type &&& MsgFlag.command = 0) :
    let typed : Msg := { y with flags := y.flags ||| type }
    typed.flags &&& MsgFlag.cmdTypeMask = type ∧ typed.command = y.command := by
  constructor
  · rw [UInt8.or_comm, or_and_of_apart _ untyped, within]
  · rw [command, command, or_and_of_apart _ apart]

theorem Msg.heard_subscribe (type : y.flags &&& MsgFlag.cmdTypeMask = MsgFlag.subscribe)
    (command : y.command = true) (data : y.data = subCmdName ++ topic) :
    y.isPing = false ∧ y.forwarded = true ∧ Xpub.request y = .subscribe topic := by
  have subscribes : y.isSubscribe = true := by rw [isSubscribe, type]; rfl
  refine ⟨by rw [isPing, type]; rfl, by simp [forwarded, subscribes], ?_⟩
  simp [Xpub.request, commandBody, subscribes, command, data, subCmdName]

theorem Msg.heard_cancel (type : y.flags &&& MsgFlag.cmdTypeMask = MsgFlag.cancel)
    (command : y.command = true) (data : y.data = cancelCmdName ++ topic) :
    y.isPing = false ∧ y.forwarded = true ∧ Xpub.request y = .cancel topic := by
  have subscribes : y.isSubscribe = false := by rw [isSubscribe, type]; rfl
  have cancels : y.isCancel = true := by rw [isCancel, type]; rfl
  refine ⟨by rw [isPing, type]; rfl, by simp [forwarded, cancels], ?_⟩
  simp [Xpub.request, commandBody, subscribes, cancels, command, data, cancelCmdName]

theorem Named.heard (named : Named m y) (asks : Asks m) :
    y.named.isPing = false ∧ y.named.forwarded = true ∧ Xpub.request y.named = Xpub.request m := by
  have data := named.data
  rw [commandMark] at data
  rw [asks.request_eq]
  cases subscribes : m.isSubscribe with
  | true =>
    rw [subscribes, if_pos rfl] at data
    have known : y.named = { y with flags := y.flags ||| MsgFlag.subscribe } := by
      simp only [Msg.named, Msg.isNamed, data]
      rfl
    obtain ⟨type, command⟩ := Msg.typed MsgFlag.subscribe named.untyped rfl rfl
    rw [known, if_pos rfl]
    exact Msg.heard_subscribe type (command.trans named.command) data
  | false =>
    have cancels := named.flagged.resolve_left (by simp [subscribes])
    rw [subscribes, if_neg Bool.false_ne_true, cancels, if_pos rfl] at data
    have known : y.named = { y with flags := y.flags ||| MsgFlag.cancel } := by
      simp only [Msg.named, Msg.isNamed, data]
      rfl
    obtain ⟨type, command⟩ := Msg.typed MsgFlag.cancel named.untyped rfl rfl
    rw [known, if_neg Bool.false_ne_true, cancels, if_pos rfl]
    exact Msg.heard_cancel type (command.trans named.command) data

theorem Named.dropped (named : Named m y) : y.forwarded = false := by
  obtain ⟨subscribes, cancels, -⟩ := Msg.types_of_untyped named.untyped
  simp [Msg.forwarded, named.command, subscribes, cancels]

end Forms

/-! ## The wire -/

namespace Stack

def frame : Stack → Msg → Frame
  | .zmtp1_0, m => v1Received m
  | .zmtp2_0, m | .zmtp3_0 _, m => Zmtp.v2.received m
  | .zmtp3_1 _, m => Zmtp.v3_1.received m
  | .ws _, m => wsReceived m

def Clean : Stack → Msg → Prop
  | .zmtp2_0, m | .zmtp3_0 _, m => Zmtp.v2.Clean m
  | .zmtp3_1 _, m => Zmtp.v3_1.Clean m
  | .zmtp1_0, _ | .ws _, _ => True

theorem header_ne_nil (stack : Stack) (random : Option UInt32) (m : Msg) :
    (stack.framing random).header m ≠ [] := by
  cases stack with
  | zmtp1_0 => simp [framing, v1Encoder, messageReadyV1]
  | zmtp2_0 | zmtp3_0 => exact Zmtp.v2.header_ne_nil m
  | zmtp3_1 => exact Zmtp.v3_1.header_ne_nil m
  | ws => simp [framing, wsEncoder, messageReadyWs]

section Exchange

variable {stack : Stack} {random : Option UInt32} {m : Msg} {outBatchSize bufSize : Nat}
  {sent : Output}

/-- What the decoder makes of the frame of one message: that message, or something that begins
    with an empty one. -/
def Arrives (stack : Stack) (m : Msg) (msgs : List Msg) : Prop :=
  (stack.Clean m → msgs.map frameOf = [stack.frame m]) ∧
    (¬ stack.Clean m → ∃ x rest, msgs = x :: rest ∧ x.data = [] ∧
      x.flags &&& MsgFlag.cmdTypeMask = 0)

theorem frameFlags_untyped (more command : Bool) :
    frameFlags more command &&& MsgFlag.cmdTypeMask = 0 := by
  cases more <;> cases command <;> decide

theorem exchange_v2 (version : Zmtp) (room : 9 ≤ bufSize) (zeroCopy : Bool)
    (bound : m.size + 10 < 2 ^ 64) (sends : Output.Sends version.encoder outBatchSize [m] sent)
    (reads : List Nat) :
    ∃ r, Decoder.receive V2Decoder.action reads sent.written (V2Decoder.new bufSize none zeroCopy) =
        .ok r ∧ (sent.written.length ≤ reads.length → r.unread = []) ∧
      (sent.Drained → r.unread = [] →
        (version.Clean m → r.msgs.map frameOf = [version.received m]) ∧
        (¬ version.Clean m → ∃ x rest, r.msgs = x :: rest ∧ x.data = [] ∧
          x.flags &&& MsgFlag.cmdTypeMask = 0)) := by
  obtain ⟨r, received, -, -, enough, arrives⟩ := Wire.exchange_v2 sends (by simpa) (by simp) room
    zeroCopy reads
  refine ⟨r, received, enough, fun drained none => ?_⟩
  obtain ⟨fits, empty⟩ := arrives drained none
  refine ⟨fits, fun unclean => ?_⟩
  obtain ⟨outs, first⟩ := empty unclean
  obtain ⟨x, rest, msgs, same, -⟩ := List.map_eq_cons_iff.mp first
  refine ⟨x, rest, msgs, congrArg Frame.data same, ?_⟩
  rw [show x.flags = frameFlags m.more (version.isCommand m) from congrArg Frame.flags same]
  exact frameFlags_untyped _ _

theorem exchange (room : 9 ≤ bufSize) (zeroCopy : Bool) (binary : isBinary m = true)
    (bound : m.size + 10 < 2 ^ 64)
    (sends : Output.Sends (stack.framing random) outBatchSize [m] sent) (reads : List Nat) :
    ∃ msgs unread,
      stack.receive bufSize zeroCopy random.isSome reads sent.written = .ok (msgs, unread) ∧
      (sent.written.length ≤ reads.length → unread = []) ∧
      (sent.Drained → unread = [] → stack.Arrives m msgs) := by
  have positive : 0 < bufSize := Nat.lt_of_lt_of_le (by decide) room
  cases stack with
  | zmtp1_0 =>
    obtain ⟨r, ran, -, -, -, enough, same⟩ := (V1Decoder.implements none).exchange
      (V1Decoder.new_at bufSize positive (.buffer 0) []) Nat.one_pos sends
      (fun m' one rest => leads_v1_frame rest (by rw [List.mem_singleton.mp one]; omega)) reads
    refine ⟨r.msgs, r.unread, ?_, enough, fun drained none => ⟨fun _ => same drained none, ?_⟩⟩
    · exact map_ok.mpr ⟨r, ran, rfl⟩
    · exact fun unclean => absurd trivial unclean
  | zmtp2_0 | zmtp3_0 =>
    obtain ⟨r, ran, enough, arrives⟩ := exchange_v2 .v2 room zeroCopy bound sends reads
    exact ⟨r.msgs, r.unread, map_ok.mpr ⟨r, ran, rfl⟩, enough, arrives⟩
  | zmtp3_1 =>
    obtain ⟨r, ran, enough, arrives⟩ := exchange_v2 .v3_1 room zeroCopy bound sends reads
    exact ⟨r.msgs, r.unread, map_ok.mpr ⟨r, ran, rfl⟩, enough, arrives⟩
  | ws =>
    obtain ⟨r, ran, -, -, -, enough, same⟩ :=
      (WsDecoder.implements ⟨none, random.isSome⟩).exchange
      (WsDecoder.new_at (r := ⟨none, random.isSome⟩) bufSize zeroCopy positive (.buffer 0) [])
      Nat.one_pos sends (fun m' one rest => leads_ws_frame random rest
        (List.mem_singleton.mp one ▸ binary) (by rw [List.mem_singleton.mp one]; omega)) reads
    refine ⟨r.msgs, r.unread, ?_, enough, fun drained none => ⟨fun _ => same drained none, ?_⟩⟩
    · exact map_ok.mpr ⟨r, ran, rfl⟩
    · exact fun unclean => absurd trivial unclean

end Exchange

/-! ## The mechanism -/

def names : Stack → Bool
  | .zmtp3_1 _ | .ws (some .curve) => true
  | .zmtp1_0 | .zmtp2_0 | .zmtp3_0 _ | .ws none | .ws (some .null) | .ws (some .plain) => false

def Form (stack : Stack) (m y : Msg) : Prop :=
  if (m.isSubscribe || m.isCancel) && stack.names then Named m y else Legacy m y

section Forms

variable {stack : Stack} {m x y : Msg}

theorem Form.untyped (form : stack.Form m y) : y.flags &&& MsgFlag.cmdTypeMask = 0 := by
  unfold Form at form
  split at form
  · exact form.untyped
  · exact form.untyped

theorem legacyMark_of_plain (plain : (m.isSubscribe || m.isCancel) = false) :
    legacyMark m = [] ∧ commandMark m = [] := by
  rw [Bool.or_eq_false_iff] at plain
  simp [legacyMark, commandMark, plain]

theorem frame_untyped (stack : Stack) (m : Msg) :
    (stack.frame m).flags &&& MsgFlag.cmdTypeMask = 0 := by
  cases stack with
  | zmtp1_0 =>
    simp only [frame, v1Received]
    rw [UInt8.and_assoc]
    exact UInt8.and_zero
  | _ => exact frameFlags_untyped _ _

theorem command_frameFlags (more command : Bool) :
    (frameFlags more command &&& MsgFlag.command != 0) = command := by
  cases more <;> cases command <;> decide

theorem form_of_frame (asks : Asks m) (same : frameOf x = stack.frame m)
    (plain : stack.mechanism ≠ some .curve) : stack.Form m x := by
  have flags : x.flags = (stack.frame m).flags := congrArg Frame.flags same
  have data : x.data = (stack.frame m).data := congrArg Frame.data same
  have untyped : x.flags &&& MsgFlag.cmdTypeMask = 0 := by rw [flags, frame_untyped]
  have legacy : (stack.frame m).flags = frameFlags m.more m.command →
      (stack.frame m).data = legacyMark m ++ m.data → Legacy m x := by
    intro flags' data'
    refine ⟨untyped, ?_, data.trans data'⟩
    rw [Msg.command, flags, flags', command_frameFlags, asks.command]
  unfold Form
  cases stack with
  | zmtp1_0 =>
    rw [names, Bool.and_false, if_neg Bool.false_ne_true]
    refine ⟨untyped, ?_, data⟩
    rw [Msg.command, flags]
    simp only [frame, v1Received]
    rw [UInt8.and_assoc, show MsgFlag.more &&& MsgFlag.command = 0 from rfl, UInt8.and_zero]
    rfl
  | zmtp2_0 | zmtp3_0 =>
    rw [names, Bool.and_false, if_neg Bool.false_ne_true]
    exact legacy rfl rfl
  | zmtp3_1 kind =>
    cases flagged : m.isSubscribe || m.isCancel with
    | true =>
      refine ⟨Bool.or_eq_true_iff.mp flagged, untyped, ?_, data⟩
      rw [Msg.command, flags]
      simp only [frame, Zmtp.received, command_frameFlags, Zmtp.isCommand]
      rw [Bool.or_assoc, flagged, Bool.or_true]
    | false =>
      obtain ⟨unmarked, unnamed⟩ := legacyMark_of_plain flagged
      refine legacy ?_ ?_
      · simp only [frame, Zmtp.received, Zmtp.isCommand]
        rw [Bool.or_assoc, flagged, Bool.or_false]
      · simp only [frame, Zmtp.received, Zmtp.mark, unmarked, unnamed]
  | ws kind =>
    have unnamed : (ws kind).names = false := by
      cases kind with
      | none => rfl
      | some kind =>
        cases kind with
        | null | plain => rfl
        | curve => exact absurd rfl plain
    rw [unnamed, Bool.and_false, if_neg Bool.false_ne_true]
    exact legacy rfl rfl

theorem form_of_plaintext (asks : Asks m) (curve : stack.mechanism = some .curve)
    (flags : y.flags = (CurveEncoding.plaintext stack.downgradeSub m).headD 0 &&& flagMask)
    (data : y.data = CurveEncoding.subCancel stack.downgradeSub m ++ m.data) : stack.Form m y := by
  have untyped : y.flags &&& MsgFlag.cmdTypeMask = 0 := by
    rw [flags, UInt8.and_assoc]
    exact UInt8.and_zero
  have command : y.command = CurveEncoding.asCommand stack.downgradeSub m := by
    rw [Msg.command, flags, (CurveEncoding.plaintext_flags stack.downgradeSub m).2, asks.command,
      Bool.false_or]
  have named : stack.names = !stack.downgradeSub := by
    cases stack with
    | zmtp1_0 | zmtp2_0 => cases curve
    | zmtp3_0 | zmtp3_1 => rfl
    | ws kind =>
      cases curve
      rfl
  unfold Form
  rw [named]
  rw [CurveEncoding.asCommand] at command
  rw [CurveEncoding.subCancel] at data
  cases flagged : m.isSubscribe || m.isCancel with
  | false =>
    obtain ⟨unmarked, -⟩ := legacyMark_of_plain flagged
    rw [flagged, Bool.and_false] at command
    rw [flagged, if_neg Bool.false_ne_true] at data
    exact ⟨untyped, command, by rw [unmarked, data]⟩
  | true =>
    rw [flagged, Bool.and_true] at command
    cases downgrade : stack.downgradeSub with
    | true =>
      rw [downgrade] at command data
      refine ⟨untyped, command, ?_⟩
      rw [data, legacyMark]
      cases subscribes : m.isSubscribe with
      | true => rfl
      | false =>
        rw [subscribes, Bool.false_or] at flagged
        rw [flagged]
        rfl
    | false =>
      rw [downgrade] at command data
      refine ⟨Bool.or_eq_true_iff.mp flagged, untyped, command, ?_⟩
      rw [data, commandMark]
      cases subscribes : m.isSubscribe with
      | true => simp [Msg.isCancel_of_isSubscribe subscribes]
      | false =>
        rw [subscribes, Bool.false_or] at flagged
        rw [flagged]
        rfl

end Forms

section Encoded

variable {stack : Stack} {box : Box} {easy easy' : Bool} {sender receiver : CurveEncoding}
  {m x : Msg}

theorem encode_curve (box : Box) (easy : Bool) (sender : CurveEncoding) (m : Msg)
    (curve : stack.mechanism = some .curve) :
    stack.encode box easy sender m = (sender.encode box easy m).1 ∧
      (stack.encode box easy sender m).flags = 0 := by
  have same : stack.encode box easy sender m = (sender.encode box easy m).1 := by
    rw [encode, curve]
    rfl
  rw [same, CurveEncoding.encode_fst]
  exact ⟨rfl, rfl⟩

theorem encode_plain (plain : stack.mechanism ≠ some .curve) :
    stack.encode box easy sender m = m := by
  rw [encode]
  split
  · rfl
  · rename_i kind mechanism
    cases kind with
    | null | plain => rfl
    | curve => exact absurd mechanism plain

theorem bare_types (bare : m.flags = 0) : m.isSubscribe = false ∧ m.isCancel = false ∧
    m.more = false ∧ m.command = false ∧ isBinary m = true := by
  simp only [Msg.isSubscribe, Msg.isCancel, Msg.more, Msg.command, isBinary, Msg.isPing, Msg.isPong,
    Msg.isCloseCmd, bare]
  decide

theorem frame_of_bare (stack : Stack) (bare : m.flags = 0) : stack.frame m = ⟨0, m.data⟩ := by
  obtain ⟨subscribes, cancels, more, command, -⟩ := bare_types bare
  cases stack with
  | zmtp1_0 => simp [frame, v1Received, bare, legacyMark, subscribes, cancels]
  | zmtp2_0 | zmtp3_0 | zmtp3_1 =>
    refine (Zmtp.plain _ subscribes cancels).2.2.trans ?_
    simp [plainFrame, bare]
  | ws => simp [frame, wsReceived, more, command, frameFlags, legacyMark, subscribes, cancels]

theorem clean_of_bare (stack : Stack) (bare : m.flags = 0) : stack.Clean m := by
  obtain ⟨subscribes, cancels, -⟩ := bare_types bare
  cases stack with
  | zmtp1_0 | ws => trivial
  | _ => exact (Zmtp.plain _ subscribes cancels).1

theorem encode_binary (asks : Asks m) : isBinary (stack.encode box easy sender m) = true := by
  by_cases curve : stack.mechanism = some .curve
  · exact (bare_types (encode_curve box easy sender m curve).2).2.2.2.2
  · rw [encode_plain curve]
    exact asks.binary

theorem size_encode_le (stack : Stack) (box : Box) (easy : Bool) (sender : CurveEncoding)
    (m : Msg) : (stack.encode box easy sender m).size ≤ m.size + 43 := by
  by_cases curve : stack.mechanism = some .curve
  · have named : (CurveEncoding.subCancel sender.downgradeSub m).length ≤ 10 := by
      unfold CurveEncoding.subCancel
      split
      · split
        · exact Nat.le_add_left 1 9
        · split <;> decide
      · exact Nat.zero_le 10
    rw [(encode_curve box easy sender m curve).1, CurveEncoding.encode_fst]
    simp only [Msg.size, Msg.initSize, List.length_append, box.sealed_length,
      CurveEncoding.plaintext, List.length_cons, messageCommand, putUint64, List.length_nil]
    omega
  · rw [encode_plain curve]
    exact Nat.le_add_right _ _

theorem decode_form {kind : MechanismKind} (easy' : Bool) (mechanism : stack.mechanism = some kind)
    (agrees : sender.Agrees receiver) (downgrade : sender.downgradeSub = stack.downgradeSub)
    (asks : Asks m) (same : frameOf x = stack.frame (stack.encode box easy sender m)) :
    ∃ y k, (Mechanism.data box easy' kind).decode receiver x = ((.ok, y), k) ∧ stack.Form m y := by
  by_cases curve : kind = .curve
  · subst curve
    obtain ⟨encoded, bare⟩ := encode_curve box easy sender m mechanism
    rw [frame_of_bare stack bare, encoded] at same
    have data : x.data = (sender.encode box easy m).1.data := congrArg Frame.data same
    obtain ⟨y, decoded, flags, body⟩ := CurveEncoding.decode_frame box easy easy' m agrees
      (congrArg Frame.flags same) data
    have structured : x.basicCommandStructure = true := by
      simp only [Msg.basicCommandStructure, Msg.size, data, CurveEncoding.encode_fst]
      simp [Msg.initSize, messageCommand]
    rw [downgrade] at flags body
    refine ⟨y, { receiver with cnPeerNonce := sender.cnNonce }, ?_,
      form_of_plaintext asks mechanism flags body⟩
    simp only [Mechanism.data, structured, if_true, decoded]
  · have plain : stack.mechanism ≠ some .curve := by
      rw [mechanism]
      exact fun other => curve (Option.some.inj other)
    rw [encode_plain plain] at same
    refine ⟨x, receiver, ?_, form_of_frame asks same plain⟩
    cases kind with
    | null | plain => rfl
    | curve => exact absurd rfl curve

end Encoded

end Stack

end Zmq
