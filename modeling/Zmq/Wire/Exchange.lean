import Zmq.Wire.Decoder
import Zmq.Wire.Encoder

/-! # From an encoder to a decoder

What an engine writes of some messages, in any batches and with any interruptions, and what a
decoder makes of it, however it is cut: if the parser reads each frame back, the messages arrive.
-/

namespace Zmq.Wire

open Lib Decoder

variable {κ σ γ : Type} {S : Spec κ σ γ} {act : Action κ σ} {d : Decoder κ σ} {g : γ}
  {place : Place} {f : Framing} {frame : Msg → Frame} {msgs : List Msg} {sent : Output}

theorem Decoder.Implements.exchange {outBatchSize : Nat} (implements : Implements act S)
    (stands : At S d g place [] []) (waits : 0 < d.toRead)
    (sends : Output.Sends f outBatchSize msgs sent)
    (each : ∀ m ∈ msgs, ∀ rest, S.pull.Leads g (f.frame m ++ rest) [frame m] g rest)
    (reads : List Nat) :
    ∃ r, Decoder.receive act reads sent.written d = .ok r ∧ r.verdict = .zero ∧ r.left = [] ∧
      r.msgs.map frameOf <+: msgs.map frame ∧ (sent.written.length ≤ reads.length → r.unread = []) ∧
      (sent.Drained → r.unread = [] → r.msgs.map frameOf = msgs.map frame) := by
  obtain ⟨r, ran, received⟩ := implements.receive stands waits reads sent.written
  obtain ⟨taken, all, frames⟩ := sends.frames
  have leads : S.pull.Leads g (taken.flatMap f.frame) (taken.map frame) g [] := by
    refine .flatMap fun m there => each m ?_
    rw [all]
    exact List.mem_append_left _ there
  rw [← frames, List.append_assoc] at leads
  obtain ⟨verdict, left, begins, whole, same⟩ := received.of_leads leads (stands.waiting waits)
  refine ⟨r, ran, verdict, left, ?_, whole, ?_⟩
  · rw [all, List.map_append]
    exact begins.trans (List.prefix_append ..)
  intro drained none
  have written := sends.drained drained
  obtain ⟨queue, -⟩ := drained
  rw [queue, List.append_nil] at all
  rw [all] at written ⊢
  refine same ?_ none
  rw [List.append_assoc, written] at frames
  exact List.append_cancel_left (frames.trans (List.append_nil _).symm)

end Zmq.Wire
