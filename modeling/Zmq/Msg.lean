import Mathlib

/-! # Messages

The part of `msg_t` that the message paths look at: the type byte, the flag
byte, the payload, the group and the metadata, which is known by a number here.
Reference counts are in a model of their own.
-/

namespace Zmq

inductive MsgType where
  | vsm
  | lmsg
  | delimiter
  | cmsg
  | zclmsg
  | join
  | leave
  deriving Repr, DecidableEq

/-- The flag bits of `msg_t`. The values between `command` and `credential` are
    command types: they share bits 2 to 5 and are compared, not tested. -/
def MsgFlag.more : UInt8 := 1
def MsgFlag.command : UInt8 := 2
def MsgFlag.cmdTypeMask : UInt8 := 0x1c
def MsgFlag.ping : UInt8 := 4
def MsgFlag.pong : UInt8 := 8
def MsgFlag.subscribe : UInt8 := 12
def MsgFlag.cancel : UInt8 := 16
def MsgFlag.closeCmd : UInt8 := 20
def MsgFlag.credential : UInt8 := 32
def MsgFlag.routingId : UInt8 := 64

/-- A flag that was set is there, and it is not another one. -/
theorem or_and_self (flags flag : UInt8) : (flags ||| flag) &&& flag = flag := by
  apply UInt8.toBitVec_inj.mp
  simp only [UInt8.toBitVec_and, UInt8.toBitVec_or]
  grind

theorem or_and_of_apart {flag other : UInt8} (flags : UInt8) (apart : flag &&& other = 0) :
    (flags ||| flag) &&& other = flags &&& other := by
  apply UInt8.toBitVec_inj.mp
  ext i bound
  have bit : (flag &&& other).toBitVec[i] = false := by simp [apart]
  simp only [UInt8.toBitVec_and, UInt8.toBitVec_or] at bit ⊢
  grind

/-- `msg_t`. The defaults are what `msg_t::init` leaves behind. -/
structure Msg where
  type : MsgType := .vsm
  flags : UInt8 := 0
  data : List UInt8 := []
  group : List UInt8 := []
  metadata : Option Nat := none
  deriving Repr, DecidableEq

namespace Msg

def init : Msg := {}

/-- `msg_t::init_size` and the `memcpy` that follows it: up to `max_vsm_size` bytes
    are stored in place. -/
def initSize (data : List UInt8) : Msg :=
  { type := if data.length ≤ 33 then .vsm else .lmsg, data := data }

def initDelimiter : Msg := { type := .delimiter }

def initSubscribe (topic : List UInt8) : Msg :=
  { initSize topic with flags := MsgFlag.subscribe }

def initCancel (topic : List UInt8) : Msg :=
  { initSize topic with flags := MsgFlag.cancel }

def size (m : Msg) : Nat := m.data.length

def more (m : Msg) : Bool := m.flags &&& MsgFlag.more != 0

def command (m : Msg) : Bool := m.flags &&& MsgFlag.command != 0

def isRoutingId (m : Msg) : Bool := m.flags &&& MsgFlag.routingId == MsgFlag.routingId

def isCredential (m : Msg) : Bool := m.flags &&& MsgFlag.credential == MsgFlag.credential

def isDelimiter (m : Msg) : Bool := m.type == .delimiter

def isSubscribe (m : Msg) : Bool := m.flags &&& MsgFlag.cmdTypeMask == MsgFlag.subscribe

def isCancel (m : Msg) : Bool := m.flags &&& MsgFlag.cmdTypeMask == MsgFlag.cancel

/-- `msg_t::set_group`; a group is kept as far as its first NUL. -/
def setGroup (m : Msg) (group : List UInt8) (length : Nat) : Option Msg :=
  if 255 < length then none else some { m with group := (group.take length).takeWhile (· != 0) }

/-- `msg_t::command_body` of a subscription or cancellation. With inproc the command flag is not
    set and the name of the command not there. -/
def commandBody (m : Msg) : List UInt8 :=
  if !m.command then m.data
  else if m.isSubscribe then m.data.drop 10
  else if m.isCancel then m.data.drop 7
  else []

@[simp] theorem initDelimiter_isDelimiter : initDelimiter.isDelimiter = true := rfl

@[simp] theorem initDelimiter_more : initDelimiter.more = false := rfl

@[simp] theorem initDelimiter_isCredential : initDelimiter.isCredential = false := rfl

end Msg

/-- What a frame asks a publisher for. -/
inductive Request where
  | subscribe (topic : List UInt8)
  | cancel (topic : List UInt8)
  | user
  deriving Repr, DecidableEq

end Zmq
