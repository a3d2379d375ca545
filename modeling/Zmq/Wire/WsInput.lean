import Zmq.Wire.Receiver
import Zmq.Wire.Ws

/-! # Malformed WebSocket frames

An engine over a `ws_decoder_t`, with any `_process_msg` that returns. The decoder sets `errno`
for a message that is too long, but not for the other frames it rejects, and the engine goes by
`errno`.
-/

namespace Zmq.Wire

open Lib Receiver

/-- What `_process_msg` answers: whether it returns 0, what it leaves in place of the message, and
    `errno`. -/
abbrev Answer (τ : Type) := τ → Errno → Msg → Bool × Msg × Errno × τ

namespace WsInput

variable {τ : Type}

abbrev State (τ : Type) := Receiver WsStep WsFields τ

def start (r : WsRules) (bufSize : Nat) (zeroCopy : Bool) (input : List UInt8) (errno : Errno)
    (world : τ) : State τ :=
  Receiver.new (WsDecoder.new bufSize r.limit zeroCopy r.mustMask) input errno world

def event (answer : Answer τ) : State τ → ReceiverAction τ → Except Fault (State τ) :=
  Receiver.step WsDecoder.action fun w e m => .ok (answer w e m)

def Possible : State τ → ReceiverAction τ → Prop := Allowed fun _ _ => True

instance (s : State τ) (a : ReceiverAction τ) : Decidable (Possible s a) :=
  inferInstanceAs (Decidable (Allowed (fun _ _ => True) s a))

/-- Nothing is asked of the handler here. -/
def anything : List Frame → Outcome → τ → Prop := fun _ _ _ => True

theorem handles (answer : Answer τ) :
    Handles (fun w e m => .ok (answer w e m)) (anything (τ := τ)) where
  fresh := fun {_ w m} _ _ e =>
    ⟨(answer w e m).1, (answer w e m).2.1, (answer w e m).2.2.1, (answer w e m).2.2.2, rfl, trivial⟩
  retry := fun {_ w m} _ e =>
    ⟨(answer w e m).1, (answer w e m).2.1, (answer w e m).2.2.1, (answer w e m).2.2.2, rfl, trivial⟩

theorem start_ready (r : WsRules) {bufSize : Nat} (positive : 0 < bufSize) (zeroCopy : Bool)
    (input : List UInt8) (errno : Errno) (world : τ) :
    Ready r.spec .opcode anything (start r bufSize zeroCopy input errno world) :=
  ready_new errno (WsDecoder.new_at bufSize zeroCopy positive _ _)
    ⟨Nat.one_pos, id⟩ (.inr rfl) trivial

def calls : ReceiverAction τ → Bool
  | .inEvent _ | .restartInput _ => true
  | .elsewhere _ _ => false

/-- The poller and the session call the engine while `errno` is not `EAGAIN`. -/
def Noticing (s : State τ) (a : ReceiverAction τ) : Prop :=
  Possible s a ∧ (calls a = true → s.errno ≠ .eagain)
  deriving Decidable

/-- `_process_msg` leaves no `EAGAIN` behind when it returns 0, unless it was there before. -/
def Clean (answer : Answer τ) : Prop :=
  ∀ w e m, e ≠ .eagain → (answer w e m).1 = true → (answer w e m).2.2.1 ≠ .eagain

/-- The decoder never sets `EAGAIN`. -/
theorem decode_errno (place : Place) (bytes : List UInt8) (d : WsDecoder) :
    Ensures (·.1 ≠ .minusOne (some .eagain)) (Decoder.decode WsDecoder.action place bytes d) := by
  refine Decoder.decode_ensures (P := (· ≠ .minusOne (some .eagain))) nofun (fun place d => ?_) _ _ _
  refine .ok ?_
  have sized (place : Place) (d : WsDecoder) :
      (WsDecoder.sizeReady place d).1 ≠ .minusOne (some .eagain) := by
    by_cases long : d.own.maxMsgSize.any (· < d.own.size.toNat) = true <;>
      simp [WsDecoder.sizeReady, long]
  have paid (place : Place) (d : WsDecoder) :
      (WsDecoder.payloadReady place d).1 ≠ .minusOne (some .eagain) := by
    unfold WsDecoder.payloadReady
    split
    · split <;> simp
    · exact sized _ _
  have after (place : Place) (d : WsDecoder) :
      (WsDecoder.afterSize place d).1 ≠ .minusOne (some .eagain) := by
    unfold WsDecoder.afterSize
    split
    · simp
    · exact paid _ _
  cases d.next with
  | opcodeReady =>
    simp only [WsDecoder.opcodeReady]
    split
    · simp
    · split <;> simp
  | sizeFirstByteReady =>
    simp only [WsDecoder.sizeFirstByteReady]
    split
    · simp
    · split
      · exact after _ _
      · split <;> simp
  | shortSizeReady | longSizeReady => exact after _ _
  | maskReady => exact paid _ _
  | flagsReady => exact sized _ _
  | messageReady => simp [WsDecoder.messageReady]

theorem event_noticed {answer : Answer τ} (clean : Clean answer) {s : State τ} {a : ReceiverAction τ}
    (errno : (∀ e w, a ≠ .elsewhere e w) → s.errno ≠ .eagain) :
    Ensures (·.misled = s.misled) (event answer s a) :=
  step_noticed (fun {w e m} differs => .ok (clean w e m differs)) (decode_errno _ _ _) errno

theorem phase_of_reaches (r : WsRules) {answer : Answer τ} (clean : Clean answer) {s₀ s : State τ}
    (phase : Receiver.Phase r.spec .opcode anything s₀) (misled : s₀.misled = false)
    (reached : Reaches (event answer) Noticing s₀ s) :
    Receiver.Phase r.spec .opcode anything s ∧ s.misled = false := by
  refine reached.invariant (P := fun s => Receiver.Phase r.spec .opcode anything s ∧ s.misled = false)
    ⟨phase, misled⟩ ?_
  rintro s a t ⟨phase, misled⟩ ⟨possible, errno⟩ stepped
  refine ⟨phase.stepped (WsDecoder.implements r) (handles answer) (fun _ _ => trivial) misled possible
    stepped, (event_noticed clean (fun call => ?_) t stepped).trans misled⟩
  cases a with
  | inEvent | restartInput => exact errno rfl
  | elsewhere e w => exact absurd rfl (call e w)

/-- A frame that the decoder rejects closes the connection once the frames before it are taken,
    and no frame behind it gets out: however the stream is cut, and whatever part of it came with
    the handshake, if `errno` is not `EAGAIN` when an event comes. -/
theorem malformed_frame_closes (r : WsRules) (answer : Answer τ) (clean : Clean answer)
    {bufSize : Nat} (positive : 0 < bufSize) (zeroCopy : Bool) (input : List UInt8) {errno : Errno}
    (fresh : errno ≠ .eagain) (world : τ) (arrival : Arrival) {s₀ s : State τ}
    (begun : event answer (start r bufSize zeroCopy input errno world) (.inEvent arrival) = .ok s₀)
    (reached : Reaches (event answer) Noticing s₀ s) {outs : List Frame} {e : Option Errno}
    (rejects : r.pull.Rejects .opcode s.stream outs e) (connected : s.ioError = false) :
    s.handed <+: outs ∧ (s.failed = some .protocolError ∨
      s.failed = none ∧ s.inputStopped = true ∧ s.refused = true) := by
  have ready := start_ready r positive zeroCopy input errno world
  obtain ⟨s₀', begun', phase⟩ := ready.inEventInternal (WsDecoder.implements r) (handles answer)
    rfl rfl rfl arrival
  cases begun.symm.trans begun'
  have noticed : s₀.misled = false := event_noticed clean (fun _ => fresh) s₀ begun
  obtain ⟨phase, noticed⟩ := phase_of_reaches r clean phase noticed reached
  exact phase.of_rejects rejects noticed connected

def takeAll : Answer Unit := fun _ errno _ => (true, Msg.init, errno, ())

theorem not_final_rejected : (WsRules.mk none false).pull.Rejects .opcode [0x02] [] none :=
  ⟨.opcode, [0x02], [], .refl _ _, rfl, rfl⟩

theorem malformed_frame_closes_not_final :
    ∃ s₀ s : State Unit,
      event takeAll (start ⟨none, false⟩ 1 true [] (.other 0) ()) (.inEvent .again) = .ok s₀ ∧
      Reaches (event takeAll) Noticing s₀ s ∧ s.stream = [0x02] ∧ s.handed = [] ∧
      s.failed = some .protocolError := by
  obtain ⟨s₀, s, begun, reached, stream, going, connected⟩ := exists_reaches_ok
    (event takeAll (start ⟨none, false⟩ 1 true [] (.other 0) ()) (.inEvent .again)) id
    (event takeAll) Noticing [.elsewhere (.other 0) (), .inEvent (.data 0x02 [])]
    (fun s : State Unit => s.stream = [0x02] ∧ s.inputStopped = false ∧ s.ioError = false)
    (by decide +kernel)
  obtain ⟨none_out, closed⟩ := malformed_frame_closes ⟨none, false⟩ takeAll
    (fun _ _ _ differs _ => differs) Nat.one_pos true [] (by decide) () _ begun reached (e := none)
    (by rw [stream]; exact not_final_rejected) connected
  exact ⟨s₀, s, begun, reached, stream, List.prefix_nil.mp none_out,
    closed.resolve_right fun stopped => by simp [going] at stopped⟩

/-- A read that finds nothing leaves `EAGAIN` behind, and the frame that comes next is taken for one
    that the session has no room for: no frame was refused, and the connection stays open. -/
theorem malformed_frame_unnoticed :
    ∃ s₀ s : State Unit,
      event takeAll (start ⟨none, false⟩ 1 true [] (.other 0) ()) (.inEvent .again) = .ok s₀ ∧
      Reaches (event takeAll) Possible s₀ s ∧
      (WsRules.mk none false).pull.Rejects .opcode s.stream [] none ∧ s.ioError = false ∧
      s.failed = none ∧ s.inputStopped = true ∧ s.refused = false := by
  obtain ⟨s₀, s, begun, reached, stream, rest⟩ := exists_reaches_ok
    (event takeAll (start ⟨none, false⟩ 1 true [] (.other 0) ()) (.inEvent .again)) id
    (event takeAll) Possible [.inEvent (.data 0x02 [])]
    (fun s : State Unit => s.stream = [0x02] ∧ s.ioError = false ∧ s.failed = none ∧
      s.inputStopped = true ∧ s.refused = false)
    (by decide +kernel)
  refine ⟨s₀, s, begun, reached, ?_, rest⟩
  rw [stream]
  exact not_final_rejected

end WsInput

end Zmq.Wire
