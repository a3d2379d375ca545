import Zmq.Wire.Exchange

/-! # ZMTP 1 framing

`v1_decoder_t`, and what it makes of the frames that `v1_encoder_t` writes. A frame is its length
in one byte or nine, a byte of flags that the length counts, and the body.
-/

namespace Zmq.Wire

open Lib

/-! ## The decoder -/

inductive V1Step where
  | oneByteSizeReady
  | eightByteSizeReady
  | flagsReady
  | messageReady
  deriving Repr, DecidableEq

/-- What `v1_decoder_t` has beside the fields of a decoder. -/
structure V1Fields where
  /-- -1 is no limit. -/
  maxMsgSize : Option Nat
  /-- What `_in_progress` was made for. Its storage is made here when the body begins. -/
  size : Nat
  deriving Repr, DecidableEq

abbrev V1Decoder := Decoder V1Step V1Fields

namespace V1Decoder

def new (bufSize : Nat) (maxMsgSize : Option Nat) : V1Decoder where
  next := .oneByteSizeReady
  readPos := .tmpbuf 0
  toRead := 1
  buf := []
  bufSize := bufSize
  maxSize := bufSize
  tmpbuf := .replicate 8 0
  inProgress := .init
  own := { maxMsgSize := maxMsgSize, size := 0 }

/-- The end of the functions that read a length. The flags are a part of it. -/
def sizeReady (length : Nat) (d : V1Decoder) : Verdict × V1Decoder :=
  if length = 0 then (.minusOne (some .eproto), d)
  else if d.own.maxMsgSize.any (· < length - 1) then (.minusOne (some .emsgsize), d)
  else
    (.zero, { d with own := { d.own with size := length - 1 } }.nextStep (.tmpbuf 0) 1 .flagsReady)

def oneByteSizeReady (d : V1Decoder) : Verdict × V1Decoder :=
  let byte := d.tmpbuf.headD 0
  if byte = 255 then (.zero, d.nextStep (.tmpbuf 0) 8 .eightByteSizeReady)
  else sizeReady byte.toNat d

def eightByteSizeReady (d : V1Decoder) : Verdict × V1Decoder :=
  sizeReady (getUint64 d.tmpbuf).toNat d

def flagsReady (d : V1Decoder) : V1Decoder :=
  d.beginBody d.own.size (d.tmpbuf.headD 0 &&& MsgFlag.more) none .messageReady

/-- `(this->*_next)`. -/
def action : Action V1Step V1Fields := fun _ d => .ok <|
  match d.next with
  | .oneByteSizeReady => oneByteSizeReady d
  | .eightByteSizeReady => eightByteSizeReady d
  | .flagsReady => (.zero, flagsReady d)
  | .messageReady => (.one, d.nextStep (.tmpbuf 0) 1 .oneByteSizeReady)

end V1Decoder

/-! ## The parser -/

/-- What is to come of a frame. -/
inductive V1State where
  | oneByteSize
  | eightByteSize
  | flags (size : Nat)
  | body (flags : UInt8) (size : Nat)

def v1Size (limit : Option Nat) (length : Nat) : Turn V1State Frame (Option Errno) :=
  if length = 0 then .reject (some .eproto)
  else if limit.any (· < length - 1) then .reject (some .emsgsize)
  else .more (.flags (length - 1))

def v1Pull (limit : Option Nat) : Pull UInt8 V1State Frame (Option Errno) where
  need
    | .oneByteSize | .flags _ => 1
    | .eightByteSize => 8
    | .body _ size => size
  turn
    | .oneByteSize, bytes =>
      if bytes.headD 0 = 255 then .more .eightByteSize else v1Size limit (bytes.headD 0).toNat
    | .eightByteSize, bytes => v1Size limit (getUint64 bytes).toNat
    | .flags size, bytes => .more (.body (bytes.headD 0 &&& MsgFlag.more) size)
    | .body flags _, bytes => .emit ⟨flags, bytes⟩ .oneByteSize

def v1Spec (limit : Option Nat) : Spec V1Step V1Fields V1State where
  pull := v1Pull limit
  scratch
    | .body _ _ => false
    | _ => true
  room := 0
  Abs next own flags g := own.maxMsgSize = limit ∧
    match g with
    | .oneByteSize => next = .oneByteSizeReady
    | .eightByteSize => next = .eightByteSizeReady
    | .flags size => next = .flagsReady ∧ own.size = size
    | .body f _ => next = .messageReady ∧ flags = f

theorem v1Size_ne_emit {limit : Option Nat} {length : Nat} {f : Frame} {g : V1State} :
    v1Size limit length ≠ .emit f g := by
  unfold v1Size
  split
  · exact nofun
  · split <;> exact nofun

namespace V1Decoder

open Decoder

variable {limit : Option Nat} {d : V1Decoder} {place : Place} {rest s : List UInt8}

theorem new_at (bufSize : Nat) (positive : 0 < bufSize) (place : Place) (rest : List UInt8) :
    At (v1Spec limit) (new bufSize limit) .oneByteSize place rest [] where
  abs := ⟨rfl, rfl⟩
  held := .tmpbuf rfl rfl rfl (by simp [new])
  need := rfl
  room := Nat.zero_le _
  positive := positive
  scratch := by simp [new]

theorem sizeReady_turned {g : V1State} (length : Nat)
    (stands : At (v1Spec limit) d g place rest s) :
    Turned (v1Spec limit) d place rest (v1Size limit length) (sizeReady length d) := by
  have limited : d.own.maxMsgSize = limit := stands.abs.1
  simp only [sizeReady, v1Size, limited]
  split
  · exact .reject _ _
  · split
    · exact .reject _ _
    · exact .more (At.beginPart stands.fit ⟨rfl, rfl, rfl⟩ rfl) ⟨rfl, rfl⟩

theorem oneByteSizeReady_turned (stands : At (v1Spec limit) d .oneByteSize place rest s)
    (first : d.tmpbuf.headD 0 = s.headD 0) :
    Turned (v1Spec limit) d place rest ((v1Pull limit).turn .oneByteSize s)
      (oneByteSizeReady d) := by
  simp only [oneByteSizeReady, v1Pull, first]
  split
  · exact .more (At.beginPart stands.fit ⟨stands.abs.1, rfl⟩ rfl) ⟨rfl, rfl⟩
  · exact sizeReady_turned _ stands

theorem implements (limit : Option Nat) : Implements action (v1Spec limit) where
  empty := by
    intro g none
    cases g with
    | oneByteSize | eightByteSize | flags => cases none
    | body => exact ⟨_, _, rfl⟩
  ready := by
    intro g s f g' turn
    cases g with
    | oneByteSize =>
      simp only [v1Spec, v1Pull] at turn
      split at turn
      · cases turn
      · exact absurd turn v1Size_ne_emit
    | eightByteSize => exact absurd turn v1Size_ne_emit
    | flags => cases turn
    | body =>
      cases turn
      exact ⟨rfl, Nat.one_pos⟩
  replaced := by
    intro next own flags flags' g kind abs
    cases g with
    | oneByteSize | eightByteSize | flags => exact abs
    | body => cases kind
  turn := by
    intro d g place rest s stands complete sited
    have length : s.length = (v1Spec limit).pull.need g := by have := stands.need; omega
    obtain ⟨limited, abs⟩ := stands.abs
    refine ⟨_, rfl, ?_⟩
    cases g with
    | oneByteSize =>
      have first := stands.first complete rfl Nat.one_pos
      rw [show d.next = .oneByteSizeReady from abs]
      exact oneByteSizeReady_turned stands first
    | eightByteSize =>
      have size := getUint64_of_take length (tmpbuf_of_held stands.held)
      rw [show d.next = .eightByteSizeReady from abs]
      simp only [eightByteSizeReady, size]
      exact sizeReady_turned _ stands
    | flags size =>
      have first := stands.first complete rfl Nat.one_pos
      rw [abs.1]
      simp only [flagsReady, first, abs.2]
      exact .more (At.beginBody stands.fit ⟨limited, rfl, rfl⟩ nofun rfl) (beginBody_same ..)
    | body flags size =>
      have data := data_of_held stands.held complete
      have bare := bare_of_held stands.held
      have emitted :
          frameOf (d.nextStep (.tmpbuf 0) 1 .oneByteSizeReady).inProgress = ⟨flags, s⟩ := by
        simp [frameOf, nextStep, data, abs.2]
      rw [abs.1]
      simp only [v1Spec, v1Pull]
      rw [← emitted]
      exact .emit (At.beginPart stands.fit ⟨limited, rfl⟩ rfl) ⟨rfl, rfl⟩ bare

end V1Decoder

/-! ## Frames -/

section Frames

variable {m : Msg}

def v1Received (m : Msg) : Frame := ⟨m.flags &&& MsgFlag.more, legacyMark m ++ m.data⟩

theorem leads_v1_length (length : Nat) (rest : List UInt8) (counted : 0 < length)
    (bound : length < 2 ^ 64) :
    (v1Pull none).Leads .oneByteSize
      ((if length < 255 then [UInt8.ofNat length] else 255 :: putUint64 (.ofNat length)) ++ rest) []
      (.flags (length - 1)) rest := by
  have size : v1Size none length = .more (.flags (length - 1)) := by
    simp [v1Size, Nat.ne_of_gt counted]
  split
  · rename_i short
    have byte : (UInt8.ofNat length).toNat = length :=
      UInt8.toNat_ofNat_of_lt' (by simp only [UInt8.size]; omega)
    have small : UInt8.ofNat length ≠ 255 := by
      intro same
      rw [same] at byte
      exact absurd byte (by simp only [UInt8.toNat_ofNat]; omega)
    refine .more [UInt8.ofNat length] rfl ?_ (.refl _ _)
    simp only [v1Pull, List.headD_cons, if_neg small, byte, size]
  · have read := getUint64_putUint64 (.ofNat length) []
    rw [List.append_nil] at read
    refine .more [255] rfl rfl (.more (putUint64 (.ofNat length)) rfl ?_ (.refl _ _))
    simp only [v1Pull, read]
    rw [UInt64.toNat_ofNat_of_lt' bound, size]

theorem leads_v1_frame (rest : List UInt8) (bound : m.size + 2 < 2 ^ 64) :
    (v1Pull none).Leads .oneByteSize (v1Encoder.frame m ++ rest) [v1Received m] .oneByteSize
      rest := by
  have marked := length_legacyMark_le m
  have first := leads_v1_length (m.size + 1 + (legacyMark m).length)
    ([m.flags &&& MsgFlag.more] ++ (legacyMark m ++ m.data ++ rest)) (by omega) (by omega)
  have total : m.size + 1 + (legacyMark m).length - 1 = (legacyMark m ++ m.data).length := by
    rw [List.length_append, Msg.size]
    omega
  have again : m.flags &&& MsgFlag.more &&& MsgFlag.more = m.flags &&& MsgFlag.more := by
    rw [UInt8.and_assoc]
    rfl
  simp only [Framing.frame, v1Encoder, messageReadyV1, List.append_assoc] at first ⊢
  refine first.trans (.more [m.flags &&& MsgFlag.more] rfl rfl ?_)
  rw [← List.append_assoc, total]
  refine .emit (legacyMark m ++ m.data) rfl ?_ (.refl _ _)
  simp only [v1Pull, List.headD_cons, again, v1Received]

end Frames

/-- Messages of any sizes, subscriptions among them, come out of the decoder as they went into the
    encoder, however the output is written and the input is read. -/
theorem legacy_framing_round_trip (outBatchSize : Nat) (actions : List OutputAction)
    (bound : ∀ m ∈ Output.offered actions, m.size + 2 < 2 ^ 64) (bufSize : Nat)
    (positive : 0 < bufSize) (reads : List Nat) :
    ∃ sent r, Output.run v1Encoder outBatchSize actions = .ok sent ∧
      Decoder.receive V1Decoder.action reads sent.written (V1Decoder.new bufSize none) = .ok r ∧
      r.verdict = .zero ∧ r.left = [] ∧ (sent.written.length ≤ reads.length → r.unread = []) ∧
      (sent.Drained → r.unread = [] →
        r.msgs.map frameOf = (Output.offered actions).map v1Received) := by
  obtain ⟨sent, ran, sends⟩ :=
    Output.run_sends (f := v1Encoder) (by simp [v1Encoder, messageReadyV1]) outBatchSize actions
  obtain ⟨r, received, verdict, left, -, rest⟩ := (V1Decoder.implements none).exchange
    (V1Decoder.new_at bufSize positive (.buffer 0) []) Nat.one_pos sends
    (fun m offered rest => leads_v1_frame rest (bound m offered)) reads
  exact ⟨sent, r, ran, received, verdict, left, rest⟩

theorem legacy_framing_round_trip_pieces :
    ∃ sent r, Output.run v1Encoder 2
        [.offer (.initSubscribe [65]), .outEvent (some 3), .offer { flags := 1, data := [7, 8] },
          .outEvent (some 9), .outEvent (some 9), .outEvent (some 9), .outEvent (some 9)] = .ok sent ∧
      sent.Drained ∧
      Decoder.receive V1Decoder.action (.replicate 9 0) sent.written (V1Decoder.new 1 none) = .ok r ∧
      r.msgs.map frameOf = [⟨0, [1, 65]⟩, ⟨1, [7, 8]⟩] := by
  obtain ⟨sent, r, ran, received, -, -, enough, all⟩ := legacy_framing_round_trip 2
    [.offer (.initSubscribe [65]), .outEvent (some 3), .offer { flags := 1, data := [7, 8] },
      .outEvent (some 9), .outEvent (some 9), .outEvent (some 9), .outEvent (some 9)]
    (by decide +kernel) 1 Nat.one_pos (.replicate 9 0)
  have drained : sent.Drained ∧ sent.written.length ≤ 9 := by
    cases ran
    decide +kernel
  exact ⟨sent, r, ran, drained.1, received, all drained.1 (enough drained.2)⟩

end Zmq.Wire
