import Zmq.Wire.Decoder
import Zmq.Wire.Encoder

/-! # WebSocket framing

`ws_decoder_t`. A server wants every frame masked, a client none. The opcodes that carry no
messages of the socket become commands; a binary frame begins with a byte of flags.
-/

namespace Zmq.Wire

open Lib

/-! ## The decoder -/

/-- `ws_protocol_t::opcode_t`; `reserved` are the values without a name. -/
inductive Opcode where
  | continuation
  | text
  | binary
  | close
  | ping
  | pong
  | reserved
  deriving Repr, DecidableEq

def Opcode.ofByte (byte : UInt8) : Opcode :=
  match (byte &&& 0xf).toNat with
  | 0 => .continuation
  | 1 => .text
  | 2 => .binary
  | 8 => .close
  | 9 => .ping
  | 10 => .pong
  | _ => .reserved

/-- The flags of a message by its opcode, for those that are taken. -/
def Opcode.flags : Opcode → Option UInt8
  | .binary => some 0
  | .close => some (MsgFlag.command ||| MsgFlag.closeCmd)
  | .ping => some (MsgFlag.ping ||| MsgFlag.command)
  | .pong => some (MsgFlag.pong ||| MsgFlag.command)
  | .continuation | .text | .reserved => none

inductive WsStep where
  | opcodeReady
  | sizeFirstByteReady
  | shortSizeReady
  | longSizeReady
  | maskReady
  | flagsReady
  | messageReady
  deriving Repr, DecidableEq

structure WsFields where
  msgFlags : UInt8
  zeroCopy : Bool
  maxMsgSize : Option Nat
  mustMask : Bool
  size : UInt64
  opcode : Opcode
  mask : List UInt8
  deriving Repr, DecidableEq

abbrev WsDecoder := Decoder WsStep WsFields

/-- `ws_protocol_t::more_flag` and `command_flag`. -/
def WsFlag.more : UInt8 := 1
def WsFlag.command : UInt8 := 2

/-- The flags of a message by the first byte of a binary frame. -/
def wsMsgFlags (byte : UInt8) : UInt8 :=
  (if byte &&& WsFlag.more ≠ 0 then MsgFlag.more else 0) |||
    (if byte &&& WsFlag.command ≠ 0 then MsgFlag.command else 0)

/-- The first byte of a binary frame is masked as well. -/
def maskIndex (opcode : Opcode) : Nat := if opcode = .binary then 1 else 0

/-- Mask or unmask, from a place of the mask on. -/
def applyMask (mask : List UInt8) (index : Nat) (bytes : List UInt8) : List UInt8 :=
  bytes.mapIdx fun i b => b ^^^ mask.getD ((index + i) % 4) 0

namespace WsDecoder

def new (bufSize : Nat) (maxMsgSize : Option Nat) (zeroCopy mustMask : Bool) : WsDecoder where
  next := .opcodeReady
  readPos := .tmpbuf 0
  toRead := 1
  buf := []
  bufSize := bufSize
  maxSize := bufSize
  tmpbuf := .replicate 8 0
  inProgress := .init
  own := {
    msgFlags := 0
    zeroCopy := zeroCopy
    maxMsgSize := maxMsgSize
    mustMask := mustMask
    size := 0
    opcode := .continuation
    mask := [] }

def opcodeReady (d : WsDecoder) : Verdict × WsDecoder :=
  let byte := d.tmpbuf.headD 0
  if byte &&& 0x80 = 0 then (.minusOne none, d)
  else
    let opcode := Opcode.ofByte byte
    match opcode.flags with
    | none => (.minusOne none, { d with own := { d.own with opcode := opcode, msgFlags := 0 } })
    | some flags =>
      (.zero, { d with own := { d.own with opcode := opcode, msgFlags := flags } }.nextStep
        (.tmpbuf 0) 1 .sizeFirstByteReady)

/-- `ws_decoder_t::size_ready`. A message is made of bytes of the allocator's buffer only. -/
def sizeReady (place : Place) (d : WsDecoder) : Verdict × WsDecoder :=
  let size := d.own.size.toNat
  if d.own.maxMsgSize.any (· < size) then (.minusOne (some .emsgsize), d)
  else
    let shared := match place with
      | .buffer offset =>
        if d.own.zeroCopy && decide (offset + size ≤ d.bufSize) then some offset else none
      | _ => none
    (.zero, d.beginBody size d.own.msgFlags shared .messageReady)

/-- What follows the size, or the mask if there is one. -/
def payloadReady (place : Place) (d : WsDecoder) : Verdict × WsDecoder :=
  if d.own.opcode = .binary then
    if d.own.size = 0 then (.minusOne none, d) else (.zero, d.nextStep (.tmpbuf 0) 1 .flagsReady)
  else sizeReady place d

/-- The end of the functions that read a size. -/
def afterSize (place : Place) (d : WsDecoder) : Verdict × WsDecoder :=
  if d.own.mustMask then (.zero, d.nextStep (.tmpbuf 0) 4 .maskReady) else payloadReady place d

def sizeFirstByteReady (place : Place) (d : WsDecoder) : Verdict × WsDecoder :=
  let byte := d.tmpbuf.headD 0
  if decide (byte &&& 0x80 ≠ 0) ≠ d.own.mustMask then (.minusOne none, d)
  else
    let size := byte &&& 0x7f
    let d := { d with own := { d.own with size := size.toUInt64 } }
    if size < 126 then afterSize place d
    else if size = 126 then (.zero, d.nextStep (.tmpbuf 0) 2 .shortSizeReady)
    else (.zero, d.nextStep (.tmpbuf 0) 8 .longSizeReady)

def shortSizeReady (place : Place) (d : WsDecoder) : Verdict × WsDecoder :=
  let size := (d.tmpbuf.getD 0 0).toUInt64 <<< 8 ||| (d.tmpbuf.getD 1 0).toUInt64
  afterSize place { d with own := { d.own with size := size } }

def longSizeReady (place : Place) (d : WsDecoder) : Verdict × WsDecoder :=
  afterSize place { d with own := { d.own with size := getUint64 d.tmpbuf } }

def maskReady (place : Place) (d : WsDecoder) : Verdict × WsDecoder :=
  payloadReady place { d with own := { d.own with mask := d.tmpbuf.take 4 } }

def flagsReady (place : Place) (d : WsDecoder) : Verdict × WsDecoder :=
  let byte := d.tmpbuf.headD 0
  let flags := if d.own.mustMask then byte ^^^ d.own.mask.headD 0 else byte
  sizeReady place { d with own := { d.own with
    msgFlags := d.own.msgFlags ||| wsMsgFlags flags
    size := d.own.size - 1 } }

def messageReady (d : WsDecoder) : Verdict × WsDecoder :=
  let data := if d.own.mustMask then
      applyMask d.own.mask (maskIndex d.own.opcode) d.inProgress.data
    else d.inProgress.data
  (.one, { d with inProgress := { d.inProgress with data := data } }.nextStep
    (.tmpbuf 0) 1 .opcodeReady)

def action : Action WsStep WsFields := fun place d => .ok <|
  match d.next with
  | .opcodeReady => opcodeReady d
  | .sizeFirstByteReady => sizeFirstByteReady place d
  | .shortSizeReady => shortSizeReady place d
  | .longSizeReady => longSizeReady place d
  | .maskReady => maskReady place d
  | .flagsReady => flagsReady place d
  | .messageReady => messageReady d

end WsDecoder

/-! ## The parser -/

inductive WsState where
  | opcode
  | sizeFirstByte (opcode : Opcode)
  | shortSize (opcode : Opcode)
  | longSize (opcode : Opcode)
  | mask (opcode : Opcode) (size : UInt64)
  | flags (size : UInt64) (mask : List UInt8)
  | body (opcode : Opcode) (flags : UInt8) (size : UInt64) (mask : List UInt8)

structure WsRules where
  limit : Option Nat
  mustMask : Bool

namespace WsRules

variable (r : WsRules) {opcode : Opcode} {g : WsState} {f : Frame} {mask : List UInt8}

abbrev WsTurn := Turn WsState Frame (Option Errno)

def sized (opcode : Opcode) (flags : UInt8) (size : UInt64) (mask : List UInt8) : WsTurn :=
  if r.limit.any (· < size.toNat) then .reject (some .emsgsize)
  else .more (.body opcode flags size mask)

def payload (opcode : Opcode) (size : UInt64) (mask : List UInt8) : WsTurn :=
  if opcode = .binary then if size = 0 then .reject none else .more (.flags size mask)
  else r.sized opcode (opcode.flags.getD 0) size mask

def afterSize (opcode : Opcode) (size : UInt64) : WsTurn :=
  if r.mustMask then .more (.mask opcode size) else r.payload opcode size []

theorem sized_ne_emit {flags : UInt8} {size : UInt64}
    : r.sized opcode flags size mask ≠ .emit f g := by
  rw [sized]
  split <;> exact nofun

theorem payload_ne_emit {size : UInt64} : r.payload opcode size mask ≠ .emit f g := by
  rw [payload]
  split
  · split <;> exact nofun
  · exact r.sized_ne_emit

theorem afterSize_ne_emit {size : UInt64} : r.afterSize opcode size ≠ .emit f g := by
  rw [afterSize]
  split
  · exact nofun
  · exact r.payload_ne_emit

def pull : Pull UInt8 WsState Frame (Option Errno) where
  need
    | .opcode | .sizeFirstByte _ | .flags _ _ => 1
    | .shortSize _ => 2
    | .longSize _ => 8
    | .mask _ _ => 4
    | .body _ _ size _ => size.toNat
  turn
    | .opcode, bytes =>
      let byte := bytes.headD 0
      if byte &&& 0x80 = 0 then .reject none
      else if (Opcode.ofByte byte).flags.isNone then .reject none
      else .more (.sizeFirstByte (.ofByte byte))
    | .sizeFirstByte opcode, bytes =>
      let byte := bytes.headD 0
      if decide (byte &&& 0x80 ≠ 0) ≠ r.mustMask then .reject none
      else if byte &&& 0x7f < 126 then r.afterSize opcode (byte &&& 0x7f).toUInt64
      else if byte &&& 0x7f = 126 then .more (.shortSize opcode)
      else .more (.longSize opcode)
    | .shortSize opcode, bytes =>
      r.afterSize opcode ((bytes.getD 0 0).toUInt64 <<< 8 ||| (bytes.getD 1 0).toUInt64)
    | .longSize opcode, bytes => r.afterSize opcode (getUint64 bytes)
    | .mask opcode size, bytes => r.payload opcode size bytes
    | .flags size mask, bytes =>
      let byte := bytes.headD 0
      let flags := if r.mustMask then byte ^^^ mask.headD 0 else byte
      r.sized .binary (wsMsgFlags flags) (size - 1) mask
    | .body opcode flags _ mask, bytes =>
      let data := if r.mustMask then applyMask mask (maskIndex opcode) bytes else bytes
      .emit ⟨flags, data⟩ .opcode

def Shows (own : WsFields) (flags : UInt8) : WsState → WsStep → Prop
  | .opcode, next => next = .opcodeReady
  | .sizeFirstByte op, next =>
    next = .sizeFirstByteReady ∧ own.opcode = op ∧ own.msgFlags = op.flags.getD 0
  | .shortSize op, next =>
    next = .shortSizeReady ∧ own.opcode = op ∧ own.msgFlags = op.flags.getD 0
  | .longSize op, next =>
    next = .longSizeReady ∧ own.opcode = op ∧ own.msgFlags = op.flags.getD 0
  | .mask op size, next =>
    next = .maskReady ∧ own.opcode = op ∧ own.msgFlags = op.flags.getD 0 ∧ own.size = size
  | .flags size mask, next =>
    next = .flagsReady ∧ own.opcode = .binary ∧ own.msgFlags = 0 ∧ own.size = size ∧
      (own.mustMask = true → own.mask = mask)
  | .body op f size mask, next =>
    next = .messageReady ∧ own.opcode = op ∧ flags = f ∧ own.size = size ∧
      (own.mustMask = true → own.mask = mask)

def spec : Spec WsStep WsFields WsState where
  pull := r.pull
  scratch
    | .body _ _ _ _ => false
    | _ => true
  room := 0
  Abs next own flags g := own.maxMsgSize = r.limit ∧ own.mustMask = r.mustMask ∧
    Shows own flags g next

end WsRules

namespace WsDecoder

open Decoder

variable {r : WsRules} {d : WsDecoder} {place : Place} {rest s : List UInt8} {g : WsState}

theorem new_at (bufSize : Nat) (zeroCopy : Bool) (positive : 0 < bufSize) (place : Place)
    (rest : List UInt8) :
    At r.spec (new bufSize r.limit zeroCopy r.mustMask) .opcode place rest [] where
  abs := ⟨rfl, rfl, rfl⟩
  held := .tmpbuf rfl rfl rfl (by simp [new])
  need := rfl
  room := Nat.zero_le _
  positive := positive
  scratch := by simp [new]

structure Base (r : WsRules) (d : WsDecoder) : Prop where
  limit : d.own.maxMsgSize = r.limit
  mustMask : d.own.mustMask = r.mustMask
  fit : Fit r.spec d

def Inside (d : WsDecoder) (place : Place) (rest : List UInt8) : Prop :=
  ∀ offset, place = .buffer offset → Window d place rest

theorem inside_of_sited (sited : Sited r.spec d g place rest) : Inside d place rest := by
  intro offset at_
  exact sited.resolve_right fun elsewhere => elsewhere.1 offset at_

variable {mask : List UInt8}

section

variable (base : Base r d)
include base

theorem sizeReady_turned (inside : Inside d place rest)
    (masked : d.own.mustMask = true → d.own.mask = mask) :
    Turned r.spec d place rest (r.sized d.own.opcode d.own.msgFlags d.own.size mask)
      (sizeReady place d) := by
  unfold sizeReady
  simp only [WsRules.sized, base.limit]
  by_cases long : r.limit.any (· < d.own.size.toNat) = true
  · rw [if_pos long, if_pos long]
    exact .reject _ _
  · rw [if_neg long, if_neg long]
    refine .more (At.beginBody base.fit ⟨base.limit, base.mustMask, rfl, rfl, rfl, rfl, masked⟩ ?_ rfl)
      (beginBody_same ..)
    intro offset shared
    split at shared
    · rename_i offset'
      split at shared
      · rename_i fits
        cases shared
        have window := inside offset rfl
        obtain ⟨offset', same, -, sized, input⟩ := id window
        cases same
        refine ⟨rfl, window, ?_⟩
        rw [input, List.length_drop]
        simp only [Bool.and_eq_true, decide_eq_true_eq] at fits
        omega
      · cases shared
    · cases shared

section

variable (inside : Inside d place rest) (flags : d.own.msgFlags = d.own.opcode.flags.getD 0)
include inside flags

theorem payloadReady_turned
    (masked : d.own.mustMask = true → d.own.mask = mask) :
    Turned r.spec d place rest (r.payload d.own.opcode d.own.size mask) (payloadReady place d) := by
  unfold payloadReady
  rw [WsRules.payload]
  by_cases binary : d.own.opcode = .binary
  · rw [if_pos binary, if_pos binary]
    by_cases none : d.own.size = 0
    · rw [if_pos none, if_pos none]
      exact .reject _ _
    · rw [if_neg none, if_neg none]
      rw [binary] at flags
      exact .more (At.beginPart base.fit
        ⟨base.limit, base.mustMask, rfl, binary, flags, rfl, masked⟩ rfl) ⟨rfl, rfl⟩
  · rw [if_neg binary, if_neg binary, ← flags]
    exact sizeReady_turned base inside masked

theorem afterSize_turned (size : UInt64) :
    Turned r.spec d place rest (r.afterSize d.own.opcode size)
      (afterSize place { d with own := { d.own with size := size } }) := by
  have base' : Base r { d with own := { d.own with size := size } } :=
    { base with }
  unfold afterSize
  rw [WsRules.afterSize, ← base.mustMask]
  cases must : d.own.mustMask with
  | true =>
    exact .more (At.beginPart base.fit ⟨base.limit, base.mustMask, rfl, rfl, flags, rfl⟩ rfl) ⟨rfl, rfl⟩
  | false =>
    refine (payloadReady_turned base' inside flags fun masked => ?_).of_same ⟨rfl, rfl⟩
    rw [show d.own.mustMask = true from masked] at must
    cases must

end

theorem opcodeReady_turned (first : d.tmpbuf.headD 0 = s.headD 0) :
    Turned r.spec d place rest (r.pull.turn .opcode s) (opcodeReady d) := by
  simp only [opcodeReady, WsRules.pull, first]
  by_cases final : s.headD 0 &&& 0x80 = 0
  · rw [if_pos final, if_pos final]
    exact .reject _ _
  · rw [if_neg final, if_neg final]
    cases flags : (Opcode.ofByte (s.headD 0)).flags with
    | none => exact .reject _ _
    | some byte =>
      exact .more (At.beginPart base.fit
        ⟨base.limit, base.mustMask, rfl, rfl, by rw [flags]; rfl⟩ rfl) ⟨rfl, rfl⟩

theorem sizeFirstByteReady_turned (inside : Inside d place rest)
    (first : d.tmpbuf.headD 0 = s.headD 0) (flags : d.own.msgFlags = d.own.opcode.flags.getD 0) :
    Turned r.spec d place rest (r.pull.turn (.sizeFirstByte d.own.opcode) s)
      (sizeFirstByteReady place d) := by
  simp only [sizeFirstByteReady, WsRules.pull, first, ← base.mustMask]
  by_cases wrong : decide (s.headD 0 &&& 0x80 ≠ 0) ≠ d.own.mustMask
  · rw [if_pos wrong, if_pos wrong]
    exact .reject _ _
  · rw [if_neg wrong, if_neg wrong]
    split
    · exact afterSize_turned base inside flags _
    · split
      · exact .more (At.beginPart base.fit ⟨base.limit, base.mustMask, rfl, rfl, flags⟩ rfl) ⟨rfl, rfl⟩
      · exact .more (At.beginPart base.fit ⟨base.limit, base.mustMask, rfl, rfl, flags⟩ rfl) ⟨rfl, rfl⟩

theorem flagsReady_turned (inside : Inside d place rest) (first : d.tmpbuf.headD 0 = s.headD 0)
    (op : d.own.opcode = .binary) (none : d.own.msgFlags = 0)
    (masked : d.own.mustMask = true → d.own.mask = mask) :
    Turned r.spec d place rest (r.pull.turn (.flags d.own.size mask) s) (flagsReady place d) := by
  have byte : (if d.own.mustMask then s.headD 0 ^^^ d.own.mask.headD 0 else s.headD 0) =
      if r.mustMask then s.headD 0 ^^^ mask.headD 0 else s.headD 0 := by
    rw [base.mustMask] at masked ⊢
    cases must : r.mustMask with
    | true => rw [masked must]
    | false => rfl
  simp only [flagsReady, first, byte, none, UInt8.zero_or, WsRules.pull]
  rw [← op]
  have base' : Base r { d with own := { d.own with
      msgFlags := wsMsgFlags (if r.mustMask then s.headD 0 ^^^ mask.headD 0 else s.headD 0)
      size := d.own.size - 1 } } := { base with }
  exact (sizeReady_turned base' inside masked).of_same ⟨rfl, rfl⟩

theorem messageReady_turned {opcode : Opcode} {flags : UInt8} {size : UInt64}
    (data : d.inProgress.data = s) (op : d.own.opcode = opcode) (same : d.inProgress.flags = flags)
    (masked : d.own.mustMask = true → d.own.mask = mask) (bare : Bare d.inProgress) :
    Turned r.spec d place rest (r.pull.turn (.body opcode flags size mask) s) (messageReady d) := by
  have emitted : frameOf (messageReady d).2.inProgress =
      ⟨flags, if r.mustMask then applyMask mask (maskIndex opcode) s else s⟩ := by
    simp only [messageReady, frameOf, nextStep, data, op, same, base.mustMask]
    rw [base.mustMask] at masked
    cases must : r.mustMask with
    | true => simp [masked must]
    | false => rfl
  simp only [WsRules.pull]
  rw [← emitted]
  exact .emit (At.beginPart base.fit ⟨base.limit, base.mustMask, rfl⟩ rfl) ⟨rfl, rfl⟩
    ⟨bare.group, bare.metadata⟩

end

theorem implements (r : WsRules) : Implements action r.spec where
  empty := by
    intro g none
    cases g with
    | opcode | sizeFirstByte | shortSize | longSize | mask | flags => cases none
    | body => exact ⟨_, _, rfl⟩
  ready := by
    intro g s f g' turn
    cases g with
    | body =>
      cases turn
      exact ⟨rfl, Nat.one_pos⟩
    | opcode =>
      simp only [WsRules.spec, WsRules.pull] at turn
      split at turn <;> try split at turn
      all_goals cases turn
    | sizeFirstByte =>
      simp only [WsRules.spec, WsRules.pull] at turn
      split at turn
      · cases turn
      · split at turn
        · exact absurd turn r.afterSize_ne_emit
        · split at turn <;> cases turn
    | shortSize | longSize => exact absurd turn r.afterSize_ne_emit
    | mask => exact absurd turn r.payload_ne_emit
    | flags => exact absurd turn r.sized_ne_emit
  replaced := by
    intro next own flags flags' g kind abs
    cases g with
    | opcode | sizeFirstByte | shortSize | longSize | mask | flags => exact abs
    | body => cases kind
  turn := by
    intro d g place rest s stands complete sited
    have length : s.length = r.spec.pull.need g := by have := stands.need; omega
    have base : Base r d := ⟨stands.abs.1, stands.abs.2.1, stands.fit⟩
    have inside := inside_of_sited sited
    obtain ⟨-, -, shows⟩ := stands.abs
    refine ⟨_, rfl, ?_⟩
    cases g with
    | opcode =>
      have first := stands.first complete rfl Nat.one_pos
      rw [show d.next = .opcodeReady from shows]
      exact opcodeReady_turned base first
    | sizeFirstByte opcode =>
      have first := stands.first complete rfl Nat.one_pos
      obtain ⟨next, rfl, flags⟩ := shows
      rw [next]
      exact sizeFirstByteReady_turned base inside first flags
    | shortSize opcode =>
      obtain ⟨next, rfl, flags⟩ := shows
      have holds := tmpbuf_of_held stands.held
      have first := getD_of_take (i := 0) (by rw [length]; exact Nat.two_pos) holds
      have second := getD_of_take (i := 1) (by rw [length]; exact Nat.one_lt_two) holds
      rw [next]
      simp only [shortSizeReady, first, second]
      exact afterSize_turned base inside flags _
    | longSize opcode =>
      obtain ⟨next, rfl, flags⟩ := shows
      have size := getUint64_of_take length (tmpbuf_of_held stands.held)
      rw [next]
      simp only [longSizeReady, size]
      exact afterSize_turned base inside flags _
    | mask opcode size =>
      obtain ⟨next, rfl, flags, rfl⟩ := shows
      have holds : d.tmpbuf.take 4 = s := by
        have holds := tmpbuf_of_held stands.held
        rwa [length] at holds
      have base' : Base r { d with own := { d.own with mask := s } } :=
        { base with }
      rw [next]
      simp only [maskReady, holds]
      exact (payloadReady_turned base' inside flags fun _ => rfl).of_same ⟨rfl, rfl⟩
    | flags size mask =>
      obtain ⟨next, op, flags, rfl, masked⟩ := shows
      have first := stands.first complete rfl Nat.one_pos
      rw [next]
      exact flagsReady_turned base inside first op flags masked
    | body opcode flags size mask =>
      obtain ⟨next, op, same, -, masked⟩ := shows
      rw [next]
      exact messageReady_turned base (data_of_held stands.held complete) op same masked
        (bare_of_held stands.held)

end WsDecoder

end Zmq.Wire
