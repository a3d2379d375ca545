import Zmq.Session.Stack

/-! # Subscriptions on their way

What a publisher finds in its pipe at the end of a protocol stack: the subscription or cancellation
itself, nothing, or something else.
-/

namespace Zmq

open Lib Wire

namespace Stack

/-! ## The session's pipe -/

section Process

variable {stack : Stack} {box : Box} {easy easy' : Bool} {sender receiver : CurveEncoding}
  {engines : Engines} {m x y : Msg} {s : Session CurveEncoding}

def Writes (stack : Stack) (box : Box) (easy : Bool) (k : CurveEncoding) (engines : Engines)
    (x : Msg) (s : Session CurveEncoding) (y : Msg) : Prop :=
  ∃ t, stack.process box easy k engines x s = .ok t ∧
    t.pair.written .first = s.pair.written .first ++ if y.forwarded then [y] else []

theorem writes_of_none (none : stack.mechanism = none) (takes : s.Open) :
    stack.Writes box easy receiver engines x s x := by
  obtain ⟨a, t, pushed, written⟩ := wp_total (Session.wp_pushMsg takes x)
  cases stack with
  | zmtp1_0 | zmtp2_0 => exact ⟨t, map_ok.mpr ⟨_, pushed, rfl⟩, written⟩
  | zmtp3_0 | zmtp3_1 => cases none
  | ws kind =>
    cases none
    exact ⟨t, map_ok.mpr ⟨_, pushed, rfl⟩, written⟩

theorem writes_of_decoded {kind : MechanismKind} {k : CurveEncoding} (engines : Engines)
    (mechanism : stack.mechanism = some kind) (data : WsEngine.isControl x = false)
    (decoded : (Mechanism.data box easy kind).decode receiver x = ((.ok, y), k))
    (quiet : WsEngine.isControl y = false) (silent : y.command = true → y.named.isPing = false)
    (takes : s.Open) : stack.Writes box easy receiver engines x s (stack.command y) := by
  cases stack with
  | zmtp1_0 | zmtp2_0 => cases mechanism
  | zmtp3_0 | zmtp3_1 =>
    cases mechanism
    obtain ⟨a, t, ran, written⟩ := wp_total (Engine.wp_decodeAndPush Session.host
      (s := { engine := { engines.zmtp with mechanism := some receiver }, world := s }) rfl decoded
      silent (Session.wp_pushMsg takes _))
    exact ⟨t.world, map_ok.mpr ⟨_, ran, rfl⟩, written⟩
  | ws =>
    cases mechanism
    obtain ⟨a, t, ran, written⟩ := wp_total (WsEngine.wp_decodeAndPush Session.host
      (s := { engine := { engines.ws with mechanism := some receiver }, world := s }) rfl data decoded
      quiet (Session.wp_pushMsg takes _))
    exact ⟨t.world, map_ok.mpr ⟨_, ran, rfl⟩, written⟩

/-- The stack in which subscriptions are commands that nobody reads. -/
def Loses (stack : Stack) (m : Msg) : Prop :=
  stack = .ws (some .curve) ∧ (m.isSubscribe = true ∨ m.isCancel = true)

theorem Form.command_heard (form : stack.Form m y) (asks : Asks m) :
    (y.command = true → y.named.isPing = false) ∧
      (¬ stack.Loses m → (stack.command y).forwarded = true ∧
        Xpub.request (stack.command y) = Xpub.request m) ∧
      (stack.Loses m → (stack.command y).forwarded = false) := by
  unfold Form at form
  split at form
  · rename_i named
    obtain ⟨flagged, names⟩ := Bool.and_eq_true_iff.mp named
    obtain ⟨silent, heard⟩ := form.heard asks
    refine ⟨fun _ => silent, ?_, ?_⟩
    · intro keeps
      cases stack with
      | zmtp1_0 | zmtp2_0 | zmtp3_0 => cases names
      | zmtp3_1 =>
        simp only [Stack.command, form.command]
        exact heard
      | ws kind =>
        cases kind with
        | none => cases names
        | some kind =>
          cases kind with
          | null | plain => cases names
          | curve => exact absurd ⟨rfl, Bool.or_eq_true_iff.mp flagged⟩ keeps
    · rintro ⟨rfl, -⟩
      exact form.dropped
  · rename_i unnamed
    have heard := form.heard asks
    have same : stack.command y = y := by
      cases stack with
      | zmtp1_0 | zmtp2_0 | ws => rfl
      | zmtp3_0 | zmtp3_1 =>
        simp only [Stack.command, form.command, Bool.false_eq_true, if_false]
    rw [same]
    refine ⟨fun command => ?_, fun _ => heard, ?_⟩
    · rw [form.command] at command
      cases command
    · rintro ⟨rfl, flagged⟩
      simp [names, flagged] at unnamed

theorem writes_of_frame (agrees : sender.Agrees receiver)
    (downgrade : sender.downgradeSub = stack.downgradeSub) (asks : Asks m)
    (same : frameOf x = stack.frame (stack.encode box easy sender m)) (takes : s.Open) :
    ∃ y, stack.Writes box easy' receiver engines x s y ∧
      (¬ stack.Loses m → y.forwarded = true ∧ Xpub.request y = Xpub.request m) ∧
      (stack.Loses m → y.forwarded = false) := by
  cases mechanism : stack.mechanism with
  | none =>
    have plain : stack.mechanism ≠ some .curve := by simp [mechanism]
    rw [encode_plain plain] at same
    obtain ⟨-, heard⟩ := (form_of_frame asks same plain).command_heard asks
    have unchanged : stack.command x = x := by
      cases stack with
      | zmtp1_0 | zmtp2_0 | ws => rfl
      | zmtp3_0 | zmtp3_1 => cases mechanism
    rw [unchanged] at heard
    exact ⟨x, writes_of_none mechanism takes, heard⟩
  | some kind =>
    obtain ⟨y, k, decoded, form⟩ := decode_form easy' mechanism agrees downgrade asks same
    obtain ⟨silent, heard⟩ := form.command_heard asks
    have untyped : x.flags &&& MsgFlag.cmdTypeMask = 0 := by
      rw [show x.flags = _ from congrArg Frame.flags same, frame_untyped]
    exact ⟨stack.command y, writes_of_decoded engines mechanism (Msg.types_of_untyped untyped).2.2 decoded
      (Msg.types_of_untyped form.untyped).2.2 silent takes, heard⟩

theorem writes_of_empty (plain : stack.mechanism ≠ some .curve) (none : x.data = [])
    (untyped : x.flags &&& MsgFlag.cmdTypeMask = 0) (takes : s.Open) :
    stack.Writes box easy' receiver engines x s x ∧ Xpub.request x = .user := by
  obtain ⟨subscribes, cancels, quiet⟩ := Msg.types_of_untyped untyped
  have unnamed : x.named = x := by simp [Msg.named, Msg.isNamed, none]
  refine ⟨?_, by simp [Xpub.request, subscribes, cancels, none]⟩
  cases mechanism : stack.mechanism with
  | none => exact writes_of_none mechanism takes
  | some kind =>
    have decoded : (Mechanism.data box easy' kind).decode receiver x = ((.ok, x), receiver) := by
      cases kind with
      | null | plain => rfl
      | curve => exact absurd mechanism plain
    have unchanged : stack.command x = x := by
      cases stack <;> simp [Stack.command, unnamed]
    have writes := writes_of_decoded engines mechanism quiet decoded quiet
      (fun _ => by simp only [WsEngine.isControl, Bool.or_eq_false_iff] at quiet; simp [unnamed, quiet])
      takes
    rwa [unchanged] at writes

end Process

/-! ## The result -/

/-- The messages and topics for which a subscription comes through: with ZMTP 2 and 3 the header
    must tell the length, unless it is CURVE that writes the message, and with CURVE over a
    WebSocket the message must not be one that the socket has flagged. -/
def Fits : Stack → Msg → Prop
  | .zmtp2_0, m | .zmtp3_0 .null, m | .zmtp3_0 .plain, m => Zmtp.v2.Clean m
  | .zmtp3_1 .null, m | .zmtp3_1 .plain, m => Zmtp.v3_1.Clean m
  | .ws (some .curve), m => m.isSubscribe = false ∧ m.isCancel = false
  | .zmtp1_0, _ | .zmtp3_0 .curve, _ | .zmtp3_1 .curve, _ => True
  | .ws none, _ | .ws (some .null), _ | .ws (some .plain), _ => True

section Result

variable {stack : Stack} {box : Box} {easy easy' : Bool} {sender receiver : CurveEncoding}
  {engines : Engines} {m x : Msg} {s : Session CurveEncoding}

theorem fits_iff (stack : Stack) (box : Box) (easy : Bool) (sender : CurveEncoding) (m : Msg) :
    stack.Fits m ↔ stack.Clean (stack.encode box easy sender m) ∧ ¬ stack.Loses m := by
  by_cases curve : stack.mechanism = some .curve
  · have clean := clean_of_bare stack (encode_curve box easy sender m curve).2
    cases stack with
    | zmtp1_0 | zmtp2_0 => cases curve
    | zmtp3_0 | zmtp3_1 =>
      cases curve
      exact iff_of_true trivial ⟨clean, fun loses => nomatch loses.1⟩
    | ws =>
      cases curve
      simp [Fits, clean, Loses]
  · have same : stack.Fits m ↔ stack.Clean m := by
      cases stack with
      | zmtp1_0 | zmtp2_0 => exact Iff.rfl
      | zmtp3_0 kind | zmtp3_1 kind =>
        cases kind with
        | null | plain => exact Iff.rfl
        | curve => exact absurd rfl curve
      | ws kind =>
        cases kind with
        | none => exact Iff.rfl
        | some kind =>
          cases kind with
          | null | plain => exact Iff.rfl
          | curve => exact absurd rfl curve
    rw [same, encode_plain curve]
    exact ⟨fun clean => ⟨clean, fun loses => curve (loses.1 ▸ rfl)⟩, And.left⟩

/-- What the publisher is to read in its pipe at the end. -/
def Carried (stack : Stack) (box : Box) (easy : Bool) (k : CurveEncoding) (engines : Engines)
    (s : Session CurveEncoding) (m : Msg) (msgs : List Msg) : Prop :=
  ∃ x t y, msgs = [x] ∧ stack.process box easy k engines x s = .ok t ∧
    t.pair.written .first = s.pair.written .first ++ [y] ∧ Xpub.request y = Xpub.request m

theorem carried_iff_of_writes {y : Msg} (writes : stack.Writes box easy receiver engines x s y) :
    stack.Carried box easy receiver engines s m [x] ↔
      y.forwarded = true ∧ Xpub.request y = Xpub.request m := by
  obtain ⟨t, processed, written⟩ := writes
  constructor
  · rintro ⟨x', t', y', one, processed', written', same⟩
    cases one
    cases processed.symm.trans processed'
    have last := List.append_cancel_left (written.symm.trans written')
    cases forwarded : y.forwarded with
    | false =>
      rw [forwarded] at last
      cases last
    | true =>
      rw [forwarded] at last
      cases last
      exact ⟨rfl, same⟩
  · rintro ⟨forwarded, same⟩
    rw [forwarded] at written
    exact ⟨x, t, y, rfl, processed, written, same⟩

theorem carried_iff (agrees : sender.Agrees receiver)
    (downgrade : sender.downgradeSub = stack.downgradeSub) (asks : Asks m) (takes : s.Open)
    {msgs : List Msg} (arrives : stack.Arrives (stack.encode box easy sender m) msgs) :
    stack.Carried box easy' receiver engines s m msgs ↔ stack.Fits m := by
  rw [fits_iff stack box easy sender m]
  by_cases clean : stack.Clean (stack.encode box easy sender m)
  · obtain ⟨x, rfl, same⟩ : ∃ x, msgs = [x] ∧
        frameOf x = stack.frame (stack.encode box easy sender m) :=
      List.map_eq_singleton_iff.mp (arrives.1 clean)
    obtain ⟨y, writes, heard, lost⟩ := writes_of_frame agrees downgrade asks same takes
    rw [carried_iff_of_writes writes]
    by_cases loses : stack.Loses m
    · simp [loses, lost loses]
    · simp [clean, loses, heard loses]
  · obtain ⟨x, rest, rfl, none, untyped⟩ := arrives.2 clean
    have plain : stack.mechanism ≠ some .curve := fun curve =>
      clean (clean_of_bare stack (encode_curve box easy sender m curve).2)
    refine iff_of_false ?_ fun fits => clean fits.1
    intro carried
    obtain ⟨x', t, y, one, -⟩ := id carried
    cases one
    obtain ⟨writes, user⟩ := writes_of_empty plain none untyped takes
    obtain ⟨-, same⟩ := (carried_iff_of_writes writes).mp carried
    exact asks.wanted (same.symm.trans user)

end Result

/-- Over any stack, with any batches and reads, a subscription or cancellation reaches the publisher
    exactly if it fits. The index into the mask of a WebSocket is an `int`. -/
theorem subscription_carried_iff (stack : Stack) (box : Box) (easy easy' : Bool)
    (sender receiver : CurveEncoding) (agrees : sender.Agrees receiver)
    (downgrade : sender.downgradeSub = stack.downgradeSub) (engines : Engines) {m : Msg}
    (asks : Asks m) (random : Option UInt32)
    (size : m.size + 100 < 2 ^ (if random.isSome then 31 else 64)) (outBatchSize : Nat)
    (actions : List OutputAction)
    (offered : Output.offered actions = [stack.encode box easy sender m]) (bufSize : Nat)
    (room : 9 ≤ bufSize) (zeroCopy : Bool) (reads : List Nat) {s : Session CurveEncoding}
    (takes : s.Open) :
    ∃ sent msgs unread, Output.run (stack.framing random) outBatchSize actions = .ok sent ∧
      stack.receive bufSize zeroCopy random.isSome reads sent.written = .ok (msgs, unread) ∧
      (sent.written.length ≤ reads.length → unread = []) ∧
      (sent.Drained → unread = [] →
        (stack.Carried box easy' receiver engines s m msgs ↔ stack.Fits m)) := by
  obtain ⟨sent, ran, sends⟩ := Output.run_sends (stack.header_ne_nil random) outBatchSize actions
  rw [offered] at sends
  have bound : (stack.encode box easy sender m).size + 10 < 2 ^ 64 := by
    have longer := stack.size_encode_le box easy sender m
    have fits : m.size + 100 < 2 ^ 64 := Nat.lt_of_lt_of_le size (by split <;> decide)
    omega
  obtain ⟨msgs, unread, received, enough, arrives⟩ :=
    exchange room zeroCopy (encode_binary asks) bound sends reads
  exact ⟨sent, msgs, unread, ran, received, enough, fun drained none =>
    carried_iff agrees downgrade asks takes (arrives drained none)⟩

def exampleEncoding (downgrade : Bool) (cnNonce : UInt64) : CurveEncoding where
  encodeNoncePrefix := clientNonces
  decodeNoncePrefix := clientNonces
  cnNonce := cnNonce
  cnPrecom := [1, 2, 3]
  downgradeSub := downgrade

def exampleEngines : Engines where
  zmtp := .new {} true
  ws := .new { mechanism := .curve } false

def exampleSession : Session CurveEncoding := { Session.new {} with hasPipe := true }

def exampleActions (stack : Stack) (pieces : Nat) : List OutputAction :=
  .offer (stack.encode .transparent true (exampleEncoding false 3) (.initSubscribe [65])) ::
    .replicate pieces (.outEvent (some 50))

theorem subscription_carried_iff_curve :
    ∃ sent msgs unread,
      Output.run (framing none (.zmtp3_1 .curve)) 7 (exampleActions (.zmtp3_1 .curve) 8) = .ok sent ∧
      sent.Drained ∧
      receive (.zmtp3_1 .curve) 16 true false (.replicate 60 4) sent.written = .ok (msgs, unread) ∧
      Carried (.zmtp3_1 .curve) .transparent false (exampleEncoding false 2) exampleEngines
        exampleSession (.initSubscribe [65]) msgs := by
  obtain ⟨sent, msgs, unread, ran, received, enough, carried⟩ := subscription_carried_iff
    (.zmtp3_1 .curve) .transparent true false (exampleEncoding false 3) (exampleEncoding false 2)
    ⟨rfl, rfl, by decide⟩ rfl exampleEngines (m := .initSubscribe [65])
    ⟨by decide, by decide, by decide⟩ none (by decide) 7 (exampleActions (.zmtp3_1 .curve) 8) rfl 16
    (by decide) true (.replicate 60 4) (s := exampleSession) ⟨rfl, rfl, 0, _, rfl, rfl⟩
  have drained : sent.Drained ∧ sent.written.length ≤ 60 := by
    cases ran
    decide +kernel
  exact ⟨sent, msgs, unread, ran, drained.1, received,
    (carried drained.1 (enough drained.2)).mpr trivial⟩

/-- With CURVE over a WebSocket the session drops the command, and nothing is written. -/
theorem subscription_dropped :
    ∃ sent x t,
      Output.run (framing none (.ws (some .curve))) 50 (exampleActions (.ws (some .curve)) 1) =
        .ok sent ∧
      sent.Drained ∧
      receive (.ws (some .curve)) 8192 true false [8191] sent.written = .ok ([x], []) ∧
      process (.ws (some .curve)) .transparent true (exampleEncoding false 2) exampleEngines x
        exampleSession = .ok t ∧ t.pair.written .first = [] := by
  exact ⟨_, _, _, rfl, by decide +kernel, rfl, rfl, by decide +kernel⟩

end Stack

end Zmq
