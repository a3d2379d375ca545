import Zmq.Wire.Exchange

/-! # ZMTP 2 and 3 framing

`v2_decoder_t`, and what it makes of the frames that `v2_encoder_t` and `v3_1_encoder_t` write.
-/

namespace Zmq.Wire

open Lib

/-! ## The decoder -/

inductive V2Step where
  | flagsReady
  | oneByteSizeReady
  | eightByteSizeReady
  | messageReady
  deriving Repr, DecidableEq

structure V2Fields where
  msgFlags : UInt8
  zeroCopy : Bool
  maxMsgSize : Option Nat
  deriving Repr, DecidableEq

abbrev V2Decoder := Decoder V2Step V2Fields

def msgFlags (first : UInt8) : UInt8 :=
  (if first &&& ProtocolFlag.more ≠ 0 then MsgFlag.more else 0) |||
    (if first &&& ProtocolFlag.command ≠ 0 then MsgFlag.command else 0)

namespace V2Decoder

def new (bufSize : Nat) (maxMsgSize : Option Nat) (zeroCopy : Bool) : V2Decoder where
  next := .flagsReady
  readPos := .tmpbuf 0
  toRead := 1
  buf := []
  bufSize := bufSize
  maxSize := bufSize
  tmpbuf := .replicate 8 0
  inProgress := .init
  own := { msgFlags := 0, zeroCopy := zeroCopy, maxMsgSize := maxMsgSize }

def flagsReady (d : V2Decoder) : V2Decoder :=
  let first := d.tmpbuf.headD 0
  let d := { d with own := { d.own with msgFlags := msgFlags first } }
  if first &&& ProtocolFlag.large ≠ 0 then d.nextStep (.tmpbuf 0) 8 .eightByteSizeReady
  else d.nextStep (.tmpbuf 0) 1 .oneByteSizeReady

/-- The offset of a place in a buffer that ends at `size`. -/
def offsetOf (size : Nat) : Place → Option Nat
  | .buffer offset => if offset ≤ size then some offset else none
  | .tmpbuf _ | .message _ | .greeting _ => none

/-- `v2_decoder_t::size_ready`. The message is made of the bytes in the buffer if it ends there;
    how far that is can be asked of a place in the buffer only. A short message is copied in any
    case, and its body takes the place of what was behind `_tmpbuf`. -/
def sizeReady (size : Nat) (place : Place) (d : V2Decoder) : Except Fault (Verdict × V2Decoder) :=
  if d.own.maxMsgSize.any (· < size) then .ok (.minusOne (some .emsgsize), d)
  else if d.own.zeroCopy then
    match offsetOf d.bufSize place with
    | some offset =>
      .ok (.zero, d.beginBody size d.own.msgFlags
        (if d.bufSize - offset < size then none else some offset) .messageReady)
    | none =>
      if size < 33 then .ok (.zero, d.beginBody size d.own.msgFlags none .messageReady)
      else .error .outOfBounds
  else .ok (.zero, d.beginBody size d.own.msgFlags none .messageReady)

def action : Action V2Step V2Fields := fun place d =>
  match d.next with
  | .flagsReady => .ok (.zero, flagsReady d)
  | .oneByteSizeReady => sizeReady (d.tmpbuf.headD 0).toNat place d
  | .eightByteSizeReady => sizeReady (getUint64 d.tmpbuf).toNat place d
  | .messageReady => .ok (.one, d.nextStep (.tmpbuf 0) 1 .flagsReady)

end V2Decoder

/-! ## The parser -/

inductive V2State where
  | flags
  | oneByteSize (flags : UInt8)
  | eightByteSize (flags : UInt8)
  | body (flags : UInt8) (size : Nat)

def v2Size (limit : Option Nat) (flags : UInt8) (size : Nat) : Turn V2State Frame (Option Errno) :=
  if limit.any (· < size) then .reject (some .emsgsize) else .more (.body flags size)

def v2Pull (limit : Option Nat) : Pull UInt8 V2State Frame (Option Errno) where
  need
    | .flags | .oneByteSize _ => 1
    | .eightByteSize _ => 8
    | .body _ size => size
  turn
    | .flags, bytes =>
      let first := bytes.headD 0
      .more (if first &&& ProtocolFlag.large ≠ 0 then .eightByteSize (msgFlags first)
        else .oneByteSize (msgFlags first))
    | .oneByteSize flags, bytes => v2Size limit flags (bytes.headD 0).toNat
    | .eightByteSize flags, bytes => v2Size limit flags (getUint64 bytes).toNat
    | .body flags _, bytes => .emit ⟨flags, bytes⟩ .flags

def v2Spec (limit : Option Nat) : Spec V2Step V2Fields V2State where
  pull := v2Pull limit
  scratch
    | .body _ _ => false
    | _ => true
  room := 9
  Abs next own flags g := own.maxMsgSize = limit ∧
    match g with
    | .flags => next = .flagsReady
    | .oneByteSize f => next = .oneByteSizeReady ∧ own.msgFlags = f
    | .eightByteSize f => next = .eightByteSizeReady ∧ own.msgFlags = f
    | .body f _ => next = .messageReady ∧ flags = f

namespace V2Decoder

open Decoder

variable {limit : Option Nat} {d : V2Decoder} {place : Place} {rest s : List UInt8}

theorem new_at (bufSize : Nat) (zeroCopy : Bool) (room : 9 ≤ bufSize) (place : Place)
    (rest : List UInt8) : At (v2Spec limit) (new bufSize limit zeroCopy) .flags place rest [] where
  abs := ⟨rfl, rfl⟩
  held := .tmpbuf rfl rfl rfl (by simp [new])
  need := rfl
  room := room
  positive := Nat.lt_of_lt_of_le (by decide) room
  scratch := by simp [new]

theorem sizeReady_turned {g : V2State} {flags : UInt8} (size : Nat)
    (stands : At (v2Spec limit) d g place rest s) (window : Window d place rest)
    (known : d.own.msgFlags = flags) :
    ∃ result, sizeReady size place d = .ok result ∧
      Turned (v2Spec limit) d place rest (v2Size limit flags size) result := by
  have limited : d.own.maxMsgSize = limit := stands.abs.1
  by_cases long : limit.any (· < size) = true
  · refine ⟨(.minusOne (some .emsgsize), d), ?_, ?_⟩
    · unfold sizeReady
      rw [limited, if_pos long]
    · rw [v2Size, if_pos long]
      exact .reject _ _
  · obtain ⟨offset, at_, within, sized, input⟩ := id window
    have length : rest.length = d.bufSize - offset := by rw [input, sized, List.length_drop]
    obtain ⟨shared, ran, fits⟩ : ∃ shared : Option Nat,
        sizeReady size place d = .ok (.zero, d.beginBody size flags shared .messageReady) ∧
        ∀ offset ∈ shared, place = .buffer offset ∧ Window d place rest ∧ size ≤ rest.length := by
      unfold sizeReady
      rw [limited, if_neg long, known]
      cases d.own.zeroCopy with
      | false => exact ⟨none, rfl, by simp⟩
      | true =>
        have here : offsetOf d.bufSize place = some offset := by
          rw [at_]
          exact if_pos (by omega)
        refine ⟨if d.bufSize - offset < size then none else some offset, ?_, ?_⟩
        · rw [if_pos rfl, here]
        · intro offset' shared
          split at shared
          · cases shared
          · cases shared
            exact ⟨at_, window, by omega⟩
    refine ⟨_, ran, ?_⟩
    rw [v2Size, if_neg long]
    exact .more (At.beginBody stands.fit ⟨limited, rfl, rfl⟩ fits rfl) (beginBody_same ..)

theorem implements (limit : Option Nat) : Implements action (v2Spec limit) where
  empty := by
    intro g none
    cases g with
    | flags | oneByteSize | eightByteSize => cases none
    | body flags size => exact ⟨_, _, rfl⟩
  ready := by
    intro g s f g' turn
    cases g with
    | flags => cases turn
    | oneByteSize flags | eightByteSize flags =>
      simp only [v2Spec, v2Pull, v2Size] at turn
      split at turn <;> cases turn
    | body flags size =>
      cases turn
      exact ⟨rfl, Nat.one_pos⟩
  replaced := by
    intro next own flags flags' g kind abs
    cases g with
    | flags | oneByteSize | eightByteSize => exact abs
    | body => cases kind
  turn := by
    intro d g place rest s stands complete sited
    have length : s.length = (v2Spec limit).pull.need g := by have := stands.need; omega
    obtain ⟨limited, abs⟩ := stands.abs
    cases g with
    | flags =>
      have first := stands.first complete rfl Nat.one_pos
      refine ⟨(.zero, flagsReady d), by rw [action, abs], .more ?_ ?_⟩
      · simp only [flagsReady, first]
        split
        · exact At.beginPart stands.fit ⟨limited, rfl, rfl⟩ rfl
        · exact At.beginPart stands.fit ⟨limited, rfl, rfl⟩ rfl
      · simp only [flagsReady]
        split <;> exact ⟨rfl, rfl⟩
    | oneByteSize flags =>
      have first := stands.first complete rfl Nat.one_pos
      obtain ⟨result, ran, turned⟩ := sizeReady_turned (s.headD 0).toNat stands
        (sited.resolve_right (by simp [v2Spec, v2Pull])) abs.2
      refine ⟨result, ?_, turned⟩
      rw [action, abs.1, ← ran, ← first]
    | eightByteSize flags =>
      have size := getUint64_of_take length (tmpbuf_of_held stands.held)
      obtain ⟨result, ran, turned⟩ := sizeReady_turned (getUint64 s).toNat stands
        (sited.resolve_right (by simp [v2Spec, v2Pull])) abs.2
      refine ⟨result, ?_, turned⟩
      rw [action, abs.1, ← ran, ← size]
    | body flags size =>
      have data := data_of_held stands.held complete
      have bare := bare_of_held stands.held
      refine ⟨(.one, d.nextStep (.tmpbuf 0) 1 .flagsReady), by rw [action, abs.1], ?_⟩
      have emitted : frameOf (d.nextStep (.tmpbuf 0) 1 .flagsReady).inProgress = ⟨flags, s⟩ := by
        simp [frameOf, nextStep, data, abs.2]
      simp only [v2Spec, v2Pull]
      rw [← emitted]
      exact .emit (At.beginPart stands.fit ⟨limited, rfl⟩ rfl) ⟨rfl, rfl⟩ bare

end V2Decoder

/-- A size that is read into `_tmpbuf` at once ends outside the buffer. -/
theorem header_is_taken_for_the_buffer :
    Decoder.receive (Decoder.watched V2Decoder.action) [0, 7] (2 :: putUint64 33)
      (V2Decoder.new 8 none true) = .error .outOfBounds := by
  decide +kernel

/-- Bodies that are not copied are in what was read, for all streams and reads, if and only if the
    buffer is longer than the size in a header. -/
theorem bodies_lie_in_the_buffer_iff (bufSize : Nat) :
    (∀ (limit : Option Nat) (reads : List Nat) (stream : List UInt8),
      ∃ r, Decoder.receive (Decoder.watched V2Decoder.action) reads stream
        (V2Decoder.new bufSize limit true) = .ok r) ↔ 9 ≤ bufSize := by
  constructor
  · intro holds
    by_contra short
    have fails : ∀ n < 9, (Decoder.receive (Decoder.watched V2Decoder.action) [0, 7]
        (2 :: putUint64 33) (V2Decoder.new n none true)).toOption = none := by
      decide +kernel
    obtain ⟨r, ran⟩ := holds none [0, 7] (2 :: putUint64 33)
    have failed := fails bufSize (Nat.lt_of_not_le short)
    rw [ran] at failed
    cases failed
  · intro room limit reads stream
    obtain ⟨r, ran, -⟩ := (V2Decoder.implements limit).watched.receive
      (V2Decoder.new_at bufSize true room (.buffer 0) []) Nat.one_pos reads stream
    exact ⟨r, ran⟩

/-- A body of 33 bytes is in the buffer, one of 32 is copied. -/
example : (Decoder.receive (Decoder.watched V2Decoder.action) [79]
    (0 :: 33 :: .replicate 33 7 ++ 0 :: 32 :: .replicate 32 7)
    (V2Decoder.new 80 none true)).toOption.map (·.msgs.map (·.type)) = some [.zclmsg, .vsm] := by
  decide +kernel

/-! ## Frames -/

/-- The encoders for ZMTP 2.0 and 3.0, and for 3.1. -/
inductive Zmtp where
  | v2
  | v3_1
  deriving Repr, DecidableEq

namespace Zmtp

def encoder : Zmtp → Framing
  | .v2 => v2Encoder
  | .v3_1 => v31Encoder

/-- What stands in front of the body of a subscription or cancellation. -/
def mark : Zmtp → Msg → List UInt8
  | .v2 => legacyMark
  | .v3_1 => commandMark

def isCommand : Zmtp → Msg → Bool
  | .v2, m => m.command
  | .v3_1, m => m.command || m.isSubscribe || m.isCancel

end Zmtp

def frameFlags (more command : Bool) : UInt8 :=
  (if more then MsgFlag.more else 0) ||| (if command then MsgFlag.command else 0)

def Zmtp.received (version : Zmtp) (m : Msg) : Frame :=
  ⟨frameFlags m.more (version.isCommand m), version.mark m ++ m.data⟩

/-- The mark does not make a short message a long one. -/
def Zmtp.Clean (version : Zmtp) (m : Msg) : Prop :=
  m.size + (version.mark m).length ≤ 255 ∨ 255 < m.size
  deriving Decidable

section Frames

variable {limit : Option Nat} {version : Zmtp} {m : Msg} {isCommand : Bool} {mark rest : List UInt8}

theorem Zmtp.frame_eq (version : Zmtp) (m : Msg) :
    version.encoder.frame m = messageReady (version.isCommand m) (version.mark m) m ++ m.data := by
  cases version <;> rfl

theorem msgFlags_protocolFlags :
    msgFlags (protocolFlags isCommand m) = frameFlags m.more isCommand := by
  unfold msgFlags protocolFlags frameFlags
  by_cases large : 255 < m.size <;> cases m.more <;> cases isCommand <;> simp only [large] <;> decide

theorem large_protocolFlags :
    protocolFlags isCommand m &&& ProtocolFlag.large ≠ 0 ↔ 255 < m.size := by
  unfold protocolFlags
  by_cases large : 255 < m.size <;> cases m.more <;> cases isCommand <;> simp only [large] <;> decide

theorem frameFlags_eq (m : Msg) :
    frameFlags m.more m.command = m.flags &&& (MsgFlag.more ||| MsgFlag.command) := by
  have all : ∀ n : Fin 256, frameFlags ({ flags := .ofNat n } : Msg).more
      ({ flags := .ofNat n } : Msg).command = .ofNat n &&& (MsgFlag.more ||| MsgFlag.command) := by
    decide +kernel
  have this := all ⟨m.flags.toNat, m.flags.toNat_lt⟩
  rwa [UInt8.ofNat_toNat] at this

theorem lengthField_long {size : Nat} (long : 255 < size) :
    lengthField size = putUint64 (.ofNat size) := if_pos long

theorem lengthField_short {size : Nat} (short : size ≤ 255) : lengthField size = [.ofNat size] :=
  if_neg (Nat.not_lt.mpr short)

theorem leads_body (flags : UInt8) (bytes rest : List UInt8) :
    (v2Pull none).Leads (.body flags bytes.length) (bytes ++ rest) [⟨flags, bytes⟩] .flags rest :=
  .emit bytes rfl rfl (.refl _ _)

theorem leads_eight {flags : UInt8} {size : Nat} (bound : size < 2 ^ 64) :
    (v2Pull none).Leads (.eightByteSize flags) (putUint64 (UInt64.ofNat size) ++ rest) []
      (.body flags size) rest := by
  refine .more (putUint64 (.ofNat size)) rfl ?_ (.refl _ _)
  have read := getUint64_putUint64 (.ofNat size) []
  rw [List.append_nil] at read
  simp only [v2Pull, v2Size, Option.any_none, Bool.false_eq_true, if_false, read]
  rw [UInt64.toNat_ofNat_of_lt' bound]

theorem leads_one {flags : UInt8} {size : Nat} (short : size ≤ 255) :
    (v2Pull none).Leads (.oneByteSize flags) (UInt8.ofNat size :: rest) [] (.body flags size) rest := by
  refine .more [UInt8.ofNat size] rfl ?_ (.refl _ _)
  simp only [v2Pull, v2Size, Option.any_none, Bool.false_eq_true, if_false, List.headD_cons]
  rw [UInt8.toNat_ofNat_of_lt' (by simp only [UInt8.size]; omega)]

theorem leads_flags_large (large : 255 < m.size) :
    (v2Pull none).Leads .flags (protocolFlags isCommand m :: rest) []
      (.eightByteSize (frameFlags m.more isCommand)) rest := by
  refine .more [protocolFlags isCommand m] rfl ?_ (.refl _ _)
  simp only [v2Pull, List.headD_cons, msgFlags_protocolFlags, if_pos (large_protocolFlags.mpr large)]

theorem leads_flags_small (small : ¬ 255 < m.size) :
    (v2Pull none).Leads .flags (protocolFlags isCommand m :: rest) []
      (.oneByteSize (frameFlags m.more isCommand)) rest := by
  refine .more [protocolFlags isCommand m] rfl ?_ (.refl _ _)
  simp only [v2Pull, List.headD_cons, msgFlags_protocolFlags, if_neg (mt large_protocolFlags.mp small)]

theorem leads_frame (clean : version.Clean m) (bound : m.size + (version.mark m).length < 2 ^ 64) :
    (v2Pull none).Leads .flags (version.encoder.frame m ++ rest) [version.received m] .flags
      rest := by
  have body := leads_body (frameFlags m.more (version.isCommand m)) (version.mark m ++ m.data) rest
  have total : (version.mark m ++ m.data).length = m.size + (version.mark m).length := by
    rw [List.length_append, Nat.add_comm]
    rfl
  rw [total, List.append_assoc] at body
  rw [Zmtp.frame_eq, messageReady]
  simp only [List.append_assoc]
  by_cases large : 255 < m.size
  · rw [lengthField_long (by omega)]
    exact (leads_flags_large large).trans ((leads_eight bound).trans body)
  · have short : m.size + (version.mark m).length ≤ 255 := clean.resolve_right large
    rw [lengthField_short short]
    exact (leads_flags_small large).trans ((leads_one short).trans body)

/-- Eight bytes of length that are taken for one of length and seven of something else: the
    message is empty, and what comes then is out of step. -/
theorem leads_empty (rest : List UInt8) (unclean : ¬ version.Clean m)
    (bound : m.size + (version.mark m).length < 2 ^ 56) :
    ∃ left, (v2Pull none).Leads .flags (version.encoder.frame m ++ rest)
      [⟨frameFlags m.more (version.isCommand m), []⟩] .flags left := by
  obtain ⟨long, small⟩ : 255 < m.size + (version.mark m).length ∧ ¬ 255 < m.size := by
    simpa [Zmtp.Clean] using unclean
  generalize total : m.size + (version.mark m).length = size at long bound
  obtain ⟨later, field⟩ : ∃ later, putUint64 (.ofNat size) = .ofNat 0 :: later := by
    refine ⟨_, congrArg (· :: _) ?_⟩
    rw [UInt64.toNat_ofNat_of_lt' (by simp only [UInt64.size]; omega), Nat.shiftRight_eq_div_pow,
      Nat.div_eq_of_lt bound]
  refine ⟨later ++ (version.mark m ++ (m.data ++ rest)), ?_⟩
  rw [Zmtp.frame_eq, messageReady, total, lengthField_long long, field]
  simp only [List.cons_append, List.append_assoc]
  exact (leads_flags_small small).trans ((leads_one (Nat.zero_le _)).trans (leads_body _ [] _))

end Frames

/-! ## Streams of frames -/

/-- What is to be received for a message that is no subscription: the same body and flags. -/
def plainFrame (m : Msg) : Frame := ⟨m.flags &&& (MsgFlag.more ||| MsgFlag.command), m.data⟩

theorem Zmtp.plain (version : Zmtp) {m : Msg} (subscribe : m.isSubscribe = false)
    (cancel : m.isCancel = false) :
    version.Clean m ∧ (version.mark m).length = 0 ∧ version.received m = plainFrame m := by
  have none : version.mark m = [] := by
    cases version <;> simp [mark, legacyMark, commandMark, subscribe, cancel]
  have command : version.isCommand m = m.command := by
    cases version <;> simp [isCommand, subscribe, cancel]
  refine ⟨?_, by rw [none]; rfl, ?_⟩
  · rw [Clean, none, List.length_nil, Nat.add_zero]
    omega
  · rw [received, none, command, frameFlags_eq]
    rfl

theorem Zmtp.header_ne_nil (version : Zmtp) (m : Msg) : version.encoder.header m ≠ [] := by
  cases version <;> exact List.cons_ne_nil _ _

/-- Messages of any sizes come out of the decoder as they went into the encoder, however the
    output is written and the input is read. -/
theorem framing_round_trip (version : Zmtp) (outBatchSize : Nat) (actions : List OutputAction)
    (plain : ∀ m ∈ Output.offered actions,
      m.isSubscribe = false ∧ m.isCancel = false ∧ m.size < 2 ^ 64) (bufSize : Nat)
    (room : 9 ≤ bufSize) (zeroCopy : Bool) (reads : List Nat) :
    ∃ sent r, Output.run version.encoder outBatchSize actions = .ok sent ∧
      Decoder.receive V2Decoder.action reads sent.written (V2Decoder.new bufSize none zeroCopy) =
        .ok r ∧
      r.verdict = .zero ∧ r.left = [] ∧
      r.msgs.map frameOf <+: (Output.offered actions).map plainFrame ∧
      (sent.written.length ≤ reads.length → r.unread = []) ∧
      (sent.Drained → r.unread = [] →
        r.msgs.map frameOf = (Output.offered actions).map plainFrame) := by
  obtain ⟨sent, ran, sends⟩ := Output.run_sends version.header_ne_nil outBatchSize actions
  have framed (m : Msg) (offered : m ∈ Output.offered actions) (rest : List UInt8) :
      (v2Pull none).Leads .flags (version.encoder.frame m ++ rest) [plainFrame m] .flags rest := by
    obtain ⟨subscribe, cancel, size⟩ := plain m offered
    obtain ⟨clean, unmarked, same⟩ := version.plain subscribe cancel
    rw [← same]
    exact leads_frame clean (by omega)
  obtain ⟨r, received, rest⟩ := (V2Decoder.implements none).exchange
    (V2Decoder.new_at bufSize zeroCopy room (.buffer 0) []) Nat.one_pos sends framed reads
  exact ⟨sent, r, ran, received, rest⟩

theorem framing_round_trip_pieces :
    ∃ sent r, Output.run Zmtp.v3_1.encoder 7
        [.offer { flags := 2, data := [4, 80, 73, 78, 71] },
          .offer { type := .lmsg, flags := 1, data := .replicate 40 7 }, .outEvent (some 3),
          .outEvent none, .outEvent (some 100), .offer { data := [1, 2, 3] }, .outEvent (some 5),
          .outEvent (some 100), .outEvent (some 100), .outEvent (some 100), .outEvent (some 100)] =
        .ok sent ∧
      sent.Drained ∧
      Decoder.receive V2Decoder.action (.replicate 60 3) sent.written (V2Decoder.new 9 none true) =
        .ok r ∧
      r.msgs.map frameOf = [⟨2, [4, 80, 73, 78, 71]⟩, ⟨1, .replicate 40 7⟩, ⟨0, [1, 2, 3]⟩] := by
  obtain ⟨sent, r, ran, received, -, -, -, enough, all⟩ := framing_round_trip .v3_1 7
    [.offer { flags := 2, data := [4, 80, 73, 78, 71] },
      .offer { type := .lmsg, flags := 1, data := .replicate 40 7 }, .outEvent (some 3),
      .outEvent none, .outEvent (some 100), .offer { data := [1, 2, 3] }, .outEvent (some 5),
      .outEvent (some 100), .outEvent (some 100), .outEvent (some 100), .outEvent (some 100)]
    (by decide +kernel) 9 (by decide) true (.replicate 60 3)
  have drained : sent.Drained ∧ sent.written.length ≤ 60 := by
    cases ran
    decide +kernel
  exact ⟨sent, r, ran, drained.1, received, all drained.1 (enough drained.2)⟩

/-! ## Subscriptions -/

def subscription (cancels : Bool) (topic : List UInt8) : Msg :=
  if cancels then .initCancel topic else .initSubscribe topic

section Subscription

variable (cancels : Bool) (topic : List UInt8)

theorem subscription_flags : (subscription cancels topic).flags =
    if cancels then MsgFlag.cancel else MsgFlag.subscribe := by
  cases cancels <;> rfl

@[simp] theorem subscription_isSubscribe : (subscription cancels topic).isSubscribe = !cancels := by
  rw [Msg.isSubscribe, subscription_flags]
  cases cancels <;> decide

@[simp] theorem subscription_isCancel : (subscription cancels topic).isCancel = cancels := by
  rw [Msg.isCancel, subscription_flags]
  cases cancels <;> decide

@[simp] theorem subscription_more : (subscription cancels topic).more = false := by
  rw [Msg.more, subscription_flags]
  cases cancels <;> decide

@[simp] theorem subscription_command : (subscription cancels topic).command = false := by
  rw [Msg.command, subscription_flags]
  cases cancels <;> decide

@[simp] theorem subscription_data : (subscription cancels topic).data = topic := by
  cases cancels <;> rfl

end Subscription

def Zmtp.subscriptionFrame (version : Zmtp) (cancels : Bool) (topic : List UInt8) : Frame :=
  match version, cancels with
  | .v2, false => ⟨0, 1 :: topic⟩
  | .v2, true => ⟨0, 0 :: topic⟩
  | .v3_1, false => ⟨MsgFlag.command, subCmdName ++ topic⟩
  | .v3_1, true => ⟨MsgFlag.command, cancelCmdName ++ topic⟩

namespace Zmtp

theorem received_subscription (version : Zmtp) (cancels : Bool) (topic : List UInt8) :
    version.received (subscription cancels topic) = version.subscriptionFrame cancels topic := by
  cases version <;> cases cancels <;>
    simp [received, subscriptionFrame, mark, legacyMark, commandMark, isCommand, frameFlags]

theorem length_mark (version : Zmtp) (m : Msg) : (version.mark m).length ≤ 10 := by
  cases version <;> simp only [mark, legacyMark, commandMark] <;> split <;> try split
  all_goals decide

theorem subscriptionFrame_data (version : Zmtp) (cancels : Bool) (topic : List UInt8) :
    (version.subscriptionFrame cancels topic).data ≠ [] := by
  cases version <;> cases cancels <;> exact List.cons_ne_nil _ _

end Zmtp

/-- If the header of the first message tells its length, the messages come out of the decoder. If
    not, the first to come is empty. -/
theorem exchange_v2 {version : Zmtp} {outBatchSize bufSize : Nat} {m : Msg} {others : List Msg}
    {sent : Output} (sends : Output.Sends version.encoder outBatchSize (m :: others) sent)
    (bound : ∀ x ∈ m :: others, x.size + 10 < 2 ^ 64) (clean : ∀ x ∈ others, version.Clean x)
    (room : 9 ≤ bufSize) (zeroCopy : Bool) (reads : List Nat) :
    ∃ r, Decoder.receive V2Decoder.action reads sent.written (V2Decoder.new bufSize none zeroCopy) =
        .ok r ∧ r.verdict = .zero ∧ r.left = [] ∧
      (sent.written.length ≤ reads.length → r.unread = []) ∧
      (sent.Drained → r.unread = [] →
        (version.Clean m → r.msgs.map frameOf = (m :: others).map version.received) ∧
        (¬ version.Clean m → ∃ rest, r.msgs.map frameOf =
          ⟨frameFlags m.more (version.isCommand m), []⟩ :: rest)) := by
  obtain ⟨r, ran, received⟩ := (V2Decoder.implements none).receive
    (V2Decoder.new_at bufSize zeroCopy room (.buffer 0) []) Nat.one_pos reads sent.written
  cases received with
  | rejected read verdict all rejects =>
    obtain ⟨g, part, left, -, -, turn⟩ := rejects
    cases g <;> cases turn
  | waits read verdict left all leads waiting fewer =>
    refine ⟨r, ran, verdict, left, fun enough => List.eq_nil_of_length_eq_zero (by omega),
      fun drained unread => ⟨fun fits => ?_, fun unclean => ?_⟩⟩
    · obtain ⟨r', ran', -, -, -, -, same⟩ := (V2Decoder.implements none).exchange
        (V2Decoder.new_at bufSize zeroCopy room (.buffer 0) []) Nat.one_pos sends (fun x offered rest => leads_frame
          (List.forall_mem_cons.mpr ⟨fits, clean⟩ x offered) (Nat.lt_of_le_of_lt
            (Nat.add_le_add_left (version.length_mark x) _) (bound x offered))) reads
      cases ran.symm.trans ran'
      exact same drained unread
    · -- Read as a short frame, the long one begins with an empty message.
      have small : m.size ≤ 255 := by
        simp only [Zmtp.Clean, not_or, Nat.not_lt] at unclean
        exact unclean.2
      obtain ⟨later, first⟩ := leads_empty (others.flatMap version.encoder.frame) unclean
        (Nat.lt_of_le_of_lt (Nat.add_le_add small (version.length_mark m)) (by decide))
      rw [unread, List.append_nil] at all
      rw [List.nil_append, ← all, sends.drained drained, List.flatMap_cons] at leads
      obtain ⟨outs, split, -⟩ := first.of_waiting leads waiting
      exact ⟨outs, split⟩

/-- A subscription comes out of the decoder, and what follows it is in step, exactly if its header
    tells its length: the flag for a long frame is decided on before the mark is counted. -/
theorem subscription_framed_iff (version : Zmtp) (cancels : Bool) (topic : List UInt8)
    (size : topic.length + 10 < 2 ^ 64) (others : List Msg)
    (clean : ∀ m ∈ others, version.Clean m ∧ m.size + 10 < 2 ^ 64) (outBatchSize : Nat)
    (actions : List OutputAction)
    (offered : Output.offered actions = subscription cancels topic :: others) (bufSize : Nat)
    (room : 9 ≤ bufSize) (zeroCopy : Bool) (reads : List Nat) :
    ∃ sent r, Output.run version.encoder outBatchSize actions = .ok sent ∧
      Decoder.receive V2Decoder.action reads sent.written (V2Decoder.new bufSize none zeroCopy) =
        .ok r ∧
      r.verdict = .zero ∧ r.left = [] ∧ (sent.written.length ≤ reads.length → r.unread = []) ∧
      (sent.Drained → r.unread = [] →
        (r.msgs.map frameOf =
            version.subscriptionFrame cancels topic :: others.map version.received ↔
          version.Clean (subscription cancels topic))) := by
  obtain ⟨sent, ran, sends⟩ := Output.run_sends version.header_ne_nil outBatchSize actions
  rw [offered] at sends
  obtain ⟨r, received, verdict, left, enough, arrives⟩ := exchange_v2 sends
    (List.forall_mem_cons.mpr ⟨by rwa [Msg.size, subscription_data], fun m h => (clean m h).2⟩)
    (fun m h => (clean m h).1) room zeroCopy reads
  refine ⟨sent, r, ran, received, verdict, left, enough, fun drained none => ?_⟩
  obtain ⟨fits, empty⟩ := arrives drained none
  rw [← version.received_subscription]
  refine ⟨fun same => ?_, fits⟩
  by_contra unclean
  obtain ⟨rest, first⟩ := empty unclean
  rw [same, version.received_subscription] at first
  have head := (List.cons.inj first).1
  exact version.subscriptionFrame_data cancels topic (congrArg Frame.data head)

theorem subscription_framed_iff_short :
    ∃ sent r, Output.run Zmtp.v3_1.encoder 100
        [.offer (subscription false [97]), .offer { data := [5] }, .outEvent (some 100)] = .ok sent ∧
      sent.Drained ∧
      Decoder.receive V2Decoder.action (.replicate 20 0) sent.written (V2Decoder.new 9 none false) =
        .ok r ∧
      r.msgs.map frameOf =
        [Zmtp.v3_1.subscriptionFrame false [97], Zmtp.v3_1.received { data := [5] }] := by
  obtain ⟨sent, r, ran, received, -, -, enough, all⟩ := subscription_framed_iff .v3_1 false [97]
    (by decide) [{ data := [5] }] (by decide +kernel) 100
    [.offer (subscription false [97]), .offer { data := [5] }, .outEvent (some 100)] rfl 9
    (by decide) false (.replicate 20 0)
  have drained : sent.Drained ∧ sent.written.length ≤ 20 := by
    cases ran
    decide +kernel
  exact ⟨sent, r, ran, drained.1, received,
    (all drained.1 (enough (by simpa using drained.2))).mpr (by decide +kernel)⟩

theorem exchange_of_test (f : Framing) (outBatchSize : Nat) (actions : List OutputAction)
    (reads : List Nat) (d : V2Decoder) (P : List Frame → Prop) [DecidablePred P]
    (found : (Output.run f outBatchSize actions).toOption.any (fun s => decide s.Drained &&
      (Decoder.receive V2Decoder.action reads s.written d).toOption.any fun r =>
        decide (r.unread = [] ∧ P (r.msgs.map frameOf))) = true) :
    ∃ sent r, Output.run f outBatchSize actions = .ok sent ∧ sent.Drained ∧
      Decoder.receive V2Decoder.action reads sent.written d = .ok r ∧ r.unread = [] ∧
      P (r.msgs.map frameOf) := by
  obtain ⟨sent, ran, found⟩ := exists_ok_of_any _ _ found
  obtain ⟨drained, found⟩ := Bool.and_eq_true_iff.mp found
  obtain ⟨r, received, found⟩ := exists_ok_of_any _ _ found
  exact ⟨sent, r, ran, of_decide_eq_true drained, received, of_decide_eq_true found⟩

/-- A topic of 255 bytes with ZMTP 2.0, and one of 246 bytes with 3.1: the first frame received is
    empty. -/
theorem subscription_out_of_step :
    (∃ sent r, Output.run v2Encoder 8192
        [.offer (.initSubscribe (.replicate 255 97)), .offer { data := [5] },
          .outEvent (some 8192)] = .ok sent ∧ sent.Drained ∧
      Decoder.receive V2Decoder.action [8191] sent.written (V2Decoder.new 8192 none true) = .ok r ∧
      r.unread = [] ∧ (r.msgs.map frameOf).head? = some ⟨0, []⟩ ∧
      r.msgs.map frameOf ≠ [⟨0, 1 :: .replicate 255 97⟩, ⟨0, [5]⟩]) ∧
    ∃ sent r, Output.run v31Encoder 8192
        [.offer (.initSubscribe (.replicate 246 97)), .offer { data := [5] },
          .outEvent (some 8192)] = .ok sent ∧ sent.Drained ∧
      Decoder.receive V2Decoder.action [8191] sent.written (V2Decoder.new 8192 none true) = .ok r ∧
      r.unread = [] ∧ (r.msgs.map frameOf).head? = some ⟨2, []⟩ ∧
      r.msgs.map frameOf ≠ [⟨2, subCmdName ++ .replicate 246 97⟩, ⟨0, [5]⟩] := by
  constructor
  · exact exchange_of_test _ _ _ _ _ (fun frames => frames.head? = some ⟨0, []⟩ ∧
      frames ≠ [⟨0, 1 :: .replicate 255 97⟩, ⟨0, [5]⟩]) (by decide +kernel)
  · exact exchange_of_test _ _ _ _ _ (fun frames => frames.head? = some ⟨2, []⟩ ∧
      frames ≠ [⟨2, subCmdName ++ .replicate 246 97⟩, ⟨0, [5]⟩]) (by decide +kernel)

end Zmq.Wire
