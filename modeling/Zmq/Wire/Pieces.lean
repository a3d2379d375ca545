import Zmq.Wire.V1
import Zmq.Wire.V2
import Zmq.Wire.Ws

/-! # Streams in pieces

A stream arrives in pieces that nobody controls, and a decoder reads them into its buffer or past
it, copies bodies or leaves them there. None of this shows in what it makes of the stream.
-/

namespace Zmq.Wire

open Lib

namespace Decoder

variable {κ σ γ : Type} {S : Spec κ σ γ} {act : Action κ σ} {g : γ} {s stream : List UInt8}
  {r r' : Intake κ σ} {d d' : Decoder κ σ} {place place' : Place} {reads reads' : Nat}

/-- The stream was read to its end, or as far as it is accepted. -/
def Intake.Ended (r : Intake κ σ) : Prop := r.verdict = .zero → r.unread = []

theorem Received.ended (received : Received S g s stream reads r) (enough : stream.length ≤ reads) :
    r.Ended := by
  intro fine
  cases received with
  | waits _ _ _ _ _ _ fewer => exact List.eq_nil_of_length_eq_zero (by omega)
  | rejected _ verdict => cases verdict.symm.trans fine

theorem Received.ends (received : Received S g s stream reads r) (ended : r.Ended) :
    (r.verdict = .zero ∧ ∃ g' s', S.pull.Leads g (s ++ stream) (r.msgs.map frameOf) g' s' ∧
      s'.length < S.pull.need g') ∨
    ∃ e, r.verdict = .minusOne e ∧ S.pull.Rejects g (s ++ stream) (r.msgs.map frameOf) e := by
  cases received with
  | waits read fine _ all leads waits =>
    rw [ended fine, List.append_nil] at all
    exact .inl ⟨fine, _, _, all ▸ leads, waits⟩
  | rejected read verdict all rejects =>
    -- What comes after the rejected bytes makes no difference.
    rw [all, ← List.append_assoc]
    exact .inr ⟨_, verdict, rejects.append _⟩

theorem Received.unique (one : Received S g s stream reads r)
    (other : Received S g s stream reads' r') (ended : r.Ended) (ended' : r'.Ended) :
    r.verdict = r'.verdict ∧ r.msgs.map frameOf = r'.msgs.map frameOf := by
  rcases one.ends ended with ⟨fine, _, _, leads, waits⟩ | ⟨e, verdict, rejects⟩ <;>
    rcases other.ends ended' with ⟨fine', _, _, leads', waits'⟩ | ⟨e', verdict', rejects'⟩
  · exact ⟨fine.trans fine'.symm, leads.unique waits leads' waits'⟩
  · obtain ⟨_, -, onward⟩ := leads.of_rejecting rejects'
    exact absurd onward (Pull.not_rejects_of_waiting waits)
  · obtain ⟨_, -, onward⟩ := leads'.of_rejecting rejects
    exact absurd onward (Pull.not_rejects_of_waiting waits')
  · obtain ⟨same, rfl⟩ := rejects.unique rejects'
    exact ⟨verdict.trans verdict'.symm, same⟩

/-- Two decoders come to the same frames and the same verdict on every stream, however each of them
    gets to read it. -/
def Agree (act : Action κ σ) (d d' : Decoder κ σ) : Prop :=
  ∀ stream reads reads', ∃ r r', receive act reads stream d = .ok r ∧
    receive act reads' stream d' = .ok r' ∧
    (stream.length ≤ reads.length → r.Ended) ∧ (stream.length ≤ reads'.length → r'.Ended) ∧
    (r.Ended → r'.Ended → r.verdict = r'.verdict ∧ r.msgs.map frameOf = r'.msgs.map frameOf)

theorem Implements.agree (implements : Implements act S) (stands : At S d g place [] [])
    (waits : 0 < d.toRead) (stands' : At S d' g place' [] []) (waits' : 0 < d'.toRead) :
    Agree act d d' := by
  intro stream reads reads'
  obtain ⟨r, ran, received⟩ := implements.receive stands waits reads stream
  obtain ⟨r', ran', received'⟩ := implements.receive stands' waits' reads' stream
  exact ⟨r, r', ran, ran', received.ended, received'.ended, received.unique received'⟩

end Decoder

open Decoder

/-- What the decoders of ZMTP 1.0, of ZMTP 2.0 and later and of WebSocket make of a stream depends
    neither on how it arrives, nor on the size of the buffer, nor on whether bodies are copied. -/
theorem decoders_agree (limit : Option Nat) (mustMask : Bool) (bufSize bufSize' : Nat)
    (room : 9 ≤ bufSize) (room' : 9 ≤ bufSize') (zeroCopy zeroCopy' : Bool) :
    Agree V1Decoder.action (V1Decoder.new bufSize limit) (V1Decoder.new bufSize' limit) ∧
    Agree V2Decoder.action (V2Decoder.new bufSize limit zeroCopy)
      (V2Decoder.new bufSize' limit zeroCopy') ∧
    Agree WsDecoder.action (WsDecoder.new bufSize limit zeroCopy mustMask)
      (WsDecoder.new bufSize' limit zeroCopy' mustMask) := by
  have some : 0 < bufSize ∧ 0 < bufSize' := by omega
  refine ⟨?_, ?_, ?_⟩
  · exact (V1Decoder.implements limit).agree (V1Decoder.new_at _ some.1 (.buffer 0) []) Nat.one_pos
      (V1Decoder.new_at _ some.2 (.buffer 0) []) Nat.one_pos
  · exact (V2Decoder.implements limit).agree (V2Decoder.new_at _ _ room (.buffer 0) []) Nat.one_pos
      (V2Decoder.new_at _ _ room' (.buffer 0) []) Nat.one_pos
  · exact (WsDecoder.implements ⟨limit, mustMask⟩).agree
      (WsDecoder.new_at _ _ some.1 (.buffer 0) []) Nat.one_pos
      (WsDecoder.new_at _ _ some.2 (.buffer 0) []) Nat.one_pos

theorem decoders_agree_on_copies :
    Agree V2Decoder.action (V2Decoder.new 9 none false) (V2Decoder.new 8192 none true) :=
  (decoders_agree none false 9 8192 (by decide) (by decide) false true).2.1

end Zmq.Wire
