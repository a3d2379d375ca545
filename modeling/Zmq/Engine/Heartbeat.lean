import Zmq.Engine.Basic

/-! # Answers to a PING

`zmtp_engine_t::process_heartbeat_message` with the memory it reads. The length of the context
comes from an unsigned subtraction and the interval of the timer from a product of 16 bits, so a
PING that is too short or has a long time to live is answered in another way than it should be.
-/

namespace Zmq

/-- A message and the bytes that happen to lie behind it. -/
structure Block where
  msg : Msg
  behind : Nat → UInt8

namespace Block

variable (b : Block)

def byte (i : Nat) : UInt8 := (b.msg.data[i]?).getD (b.behind (i - b.msg.size))

def read (offset n : Nat) : List UInt8 := (List.range n).map fun i => b.byte (offset + i)

/-- The time to live of a PING, in tenths of a second. -/
def ttl : UInt16 := (b.byte 5).toUInt16 * 256 + (b.byte 6).toUInt16

def contextLen : Nat := min (UInt64.ofNat b.msg.size - 7).toNat 16

theorem read_inside {offset n : Nat} (inside : offset + n ≤ b.msg.size) :
    b.read offset n = (b.msg.data.drop offset).take n := by
  rw [Msg.size] at inside
  refine List.ext_getElem ?_ fun i left right => ?_
  · simp only [read, List.length_map, List.length_range, List.length_take, List.length_drop]
    omega
  · rw [read, List.length_map, List.length_range] at left
    have bound : offset + i < b.msg.data.length := by omega
    simp [read, byte, List.getElem?_eq_getElem bound]

theorem contextLen_of_long (fits : b.msg.size < 2 ^ 64) (long : 7 ≤ b.msg.size) :
    b.contextLen = min (b.msg.size - 7) 16 := by
  have size : (UInt64.ofNat b.msg.size).toNat = b.msg.size := by simpa using fits
  rw [contextLen, UInt64.toNat_sub_of_le, size]
  · rfl
  · rw [UInt64.le_iff_toNat_le, size]
    exact long

theorem read_context (fits : b.msg.size < 2 ^ 64) (long : 7 ≤ b.msg.size) :
    7 + b.contextLen ≤ b.msg.size ∧ b.read 7 b.contextLen = (b.msg.data.drop 7).take 16 := by
  have length := b.contextLen_of_long fits long
  have inside : 7 + b.contextLen ≤ b.msg.size := by omega
  have rest : (b.msg.data.drop 7).length = b.msg.size - 7 := List.length_drop
  refine ⟨inside, ?_⟩
  rw [b.read_inside inside, length, ← rest, ← List.take_take,
    List.take_of_length_le (List.length_take_le' 16 _)]

theorem ttl_of_long (long : 7 ≤ b.msg.size) :
    b.ttl = (b.msg.data.getD 5 0).toUInt16 * 256 + (b.msg.data.getD 6 0).toUInt16 := by
  rw [Msg.size] at long
  have fifth : b.byte 5 = b.msg.data.getD 5 0 := by
    simp [byte, List.getElem?_eq_getElem (show 5 < b.msg.data.length by omega)]
  have sixth : b.byte 6 = b.msg.data.getD 6 0 := by
    simp [byte, List.getElem?_eq_getElem (show 6 < b.msg.data.length by omega)]
  rw [ttl, fifth, sixth]

end Block

/-- The fields of an engine that heartbeats from the peer change; `ttlTimer` is the interval of the
    timer that runs. The last field is for the record: how many bytes of a PING were read. -/
structure Heartbeat where
  ttlTimer : Option Nat
  pongMsg : Msg
  nextMsg : NextMsg Empty
  extent : Nat

namespace Heartbeat

/-- `zmtp_engine_t::process_heartbeat_message` before it calls `out_event`. -/
def processHeartbeatMessage (b : Block) (h : Heartbeat) : Heartbeat :=
  if b.msg.isPing then
    { ttlTimer :=
        if h.ttlTimer = none ∧ 0 < b.ttl * 100 then some (b.ttl * 100).toNat else h.ttlTimer
      pongMsg := { flags := MsgFlag.command, data := Engine.pongCmd ++ b.read 7 b.contextLen }
      nextMsg := .producePongMessage
      extent := 7 + b.contextLen }
  else h

def processCommandMessage (b : Block) (h : Heartbeat) : Heartbeat :=
  processHeartbeatMessage { b with msg := b.msg.named } h

/-- A command in `decode_and_push`, which stops the timer first. -/
def commandReceived (b : Block) (h : Heartbeat) : Heartbeat :=
  processCommandMessage b { h with ttlTimer := none }

/-- A PING as it should be answered: with the bytes behind its time to live, 16 at most, and a timer
    for that time if there is one. -/
structure Answered (b : Block) (h : Heartbeat) : Prop where
  pong : h.pongMsg.data = Engine.pongCmd ++ (b.msg.data.drop 7).take 16
  inside : h.extent ≤ b.msg.size
  timer : h.ttlTimer = if b.ttl = 0 then none else some (100 * b.ttl.toNat)

variable {b : Block} {h : Heartbeat}

section

variable (named : b.msg.isNamed [80, 73, 78, 71] = true)
include named

theorem named_ping : b.msg.named = { b.msg with flags := b.msg.flags ||| MsgFlag.ping } := by
  rw [Msg.named, if_pos named]

theorem isPing_of_named
    (plain : b.msg.flags &&& MsgFlag.cmdTypeMask = 0) : b.msg.named.isPing = true := by
  have distrib : (b.msg.flags ||| MsgFlag.ping) &&& MsgFlag.cmdTypeMask =
      (b.msg.flags &&& MsgFlag.cmdTypeMask) ||| (MsgFlag.ping &&& MsgFlag.cmdTypeMask) := by
    apply UInt8.toBitVec_inj.mp
    ext i bound
    simp [Bool.and_or_distrib_right]
  rw [named_ping named, Msg.isPing, distrib, plain]
  decide

theorem commandReceived_ping
    (plain : b.msg.flags &&& MsgFlag.cmdTypeMask = 0) :
    commandReceived b h =
      { ttlTimer := if 0 < b.ttl * 100 then some (b.ttl * 100).toNat else none
        pongMsg := { flags := MsgFlag.command, data := Engine.pongCmd ++ b.read 7 b.contextLen }
        nextMsg := .producePongMessage
        extent := 7 + b.contextLen } := by
  have same : Block.mk b.msg.named b.behind =
      { b with msg := { b.msg with flags := b.msg.flags ||| MsgFlag.ping } } := by
    rw [named_ping named]
  rw [commandReceived, processCommandMessage, processHeartbeatMessage,
    if_pos (isPing_of_named named plain), same]
  simp only [true_and]
  rfl

end

/-- The product of 16 bits is the interval for 65.5 seconds at most. -/
theorem timer_iff :
    ((if 0 < b.ttl * 100 then some (b.ttl * 100).toNat else none) =
      if b.ttl = 0 then none else some (100 * b.ttl.toNat)) ↔ b.ttl.toNat ≤ 655 := by
  have product : (b.ttl * 100).toNat = b.ttl.toNat * 100 % 65536 := by
    rfl
  have positive : 0 < b.ttl * 100 ↔ 0 < (b.ttl * 100).toNat := UInt16.lt_iff_toNat_lt
  have zero : b.ttl = 0 ↔ b.ttl.toNat = 0 := UInt16.toNat_inj.symm
  simp only [positive, zero]
  split_ifs <;> simp only [Option.some.injEq, false_iff, true_iff] <;> omega

/-- A PING is answered as it should be exactly if its time to live is there and not too long. -/
theorem ping_answered_iff (b : Block) (h : Heartbeat)
    (named : b.msg.isNamed [80, 73, 78, 71] = true)
    (plain : b.msg.flags &&& MsgFlag.cmdTypeMask = 0) (fits : b.msg.size < 2 ^ 64) :
    Answered b (commandReceived b h) ↔ 7 ≤ b.msg.size ∧ b.ttl.toNat ≤ 655 := by
  rw [commandReceived_ping named plain]
  constructor
  · intro answered
    have inside : 7 + b.contextLen ≤ b.msg.size := answered.inside
    exact ⟨by omega, timer_iff.mp answered.timer⟩
  · rintro ⟨long, short⟩
    obtain ⟨inside, context⟩ := b.read_context fits long
    exact ⟨congrArg (Engine.pongCmd ++ ·) context, inside, timer_iff.mpr short⟩

theorem ping_answered_iff_context :
    Answered ⟨⟨.vsm, MsgFlag.command, Engine.pingCmd ++ [0, 10, 42], [], none⟩, fun _ => 0⟩
      (commandReceived ⟨⟨.vsm, MsgFlag.command, Engine.pingCmd ++ [0, 10, 42], [], none⟩, fun _ => 0⟩
        ⟨none, .init, .pullAndEncode, 0⟩) :=
  (ping_answered_iff _ _ (by decide) (by decide) (by decide)).mpr (by decide)

/-- A PING without a time to live: two bytes behind the message are taken for it, and the PONG has
    16 bytes from beyond. A time to live of 656 tenths of a second: the timer is set to 64 ms. -/
theorem ping_answered_wrongly :
    (commandReceived ⟨⟨.vsm, MsgFlag.command, Engine.pingCmd, [], none⟩, fun _ => 0xaa⟩
        ⟨none, .init, .pullAndEncode, 0⟩).pongMsg.data = Engine.pongCmd ++ .replicate 16 0xaa ∧
      (commandReceived ⟨⟨.vsm, MsgFlag.command, Engine.pingCmd ++ [2, 144], [], none⟩, fun _ => 0⟩
        ⟨none, .init, .pullAndEncode, 0⟩).ttlTimer = some 64 := by
  decide

/-- A PING that is long enough is answered as the engine does it, whatever lies behind it. -/
theorem engine_processHeartbeatMessage {μ ω : Type} (host : Host μ ω) (mech : Mechanism μ)
    (ping : b.msg.isPing = true) (long : 7 ≤ b.msg.size) (fits : b.msg.size < 2 ^ 64) :
    Engine.processHeartbeatMessage host mech b.msg = (do
      Engine.update fun e => if 0 < (b.ttl * 100).toNat then e.setTimer .heartbeatTtl true else e
      Engine.update fun e => { e with
        own.pongMsg := (processHeartbeatMessage b h).pongMsg
        nextMsg := (processHeartbeatMessage b h).nextMsg }
      Engine.outEvent host mech) := by
  have short : ¬ b.msg.size < 7 := by omega
  rw [Engine.processHeartbeatMessage, if_pos ping, if_neg short, processHeartbeatMessage,
    if_pos ping, (b.read_context fits long).2, b.ttl_of_long long]

end Heartbeat

end Zmq
