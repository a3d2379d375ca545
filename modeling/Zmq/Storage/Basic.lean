import Zmq.Lib.RefCount
import Zmq.Pipe.Basic

/-! # The storage behind messages

`msg_t` as a handle of storage that it may share with other handles: the content of a long or
zero-copy message and the `long_group_t` of a group that does not fit into the handle. Handles are
known by their index; a pipe that takes a message is a handle with a bitwise copy of it.

A handle is initialised once and then not again before it is closed, as the documentation asks for,
and an external content comes with a function that frees it, as `close` asserts. `malloc` gives what
it is asked for, and there is no metadata. While `dist_t` hands out a
message, the handles of others go on, so that its calls of `write` are steps of their own.
-/

namespace Zmq

open Lib

/-- The fields of `msg_t` that storage depends on. -/
structure Handle where
  /-- The type, or zero for a handle that is not a message. -/
  type : Option MsgType := none
  shared : Bool := false
  content : Nat := 0
  /-- The address of the `long_group_t`, for a group of that type. -/
  group : Option Nat := none
  deriving Repr, DecidableEq

/-- `dist_t::distribute` under way: the pipes to come, and those that took or refused the message. -/
structure Distribution where
  remaining : Nat
  taken : Nat := 0
  failed : Nat := 0
  deriving Repr, DecidableEq

structure Slot where
  msg : Handle := {}
  sending : Option Distribution := none
  deriving Repr, DecidableEq

structure Store where
  slots : List Slot := []
  contents : Counters 32 := .empty
  groups : Counters 32 := .empty

/-- `is_lmsg () || is_zcmsg ()`. -/
def Handle.counted (h : Handle) : Bool := h.type == some .lmsg || h.type == some .zclmsg

def Handle.closed (h : Handle) : Handle := { h with type := none }

namespace Store

variable (s : Store)

def slot (i : Nat) : Except Fault Slot :=
  match s.slots[i]? with
  | none => .error .outOfBounds
  | some x => .ok x

def put (i : Nat) (h : Handle) : Store := { s with slots := s.slots.set i { msg := h } }

def send (i : Nat) (h : Handle) (d : Distribution) : Store :=
  { s with slots := s.slots.set i { msg := h, sending := some d } }

/-- Storage that was freed cannot be looked at. -/
def withContents : Option (Counters 32) → Except Fault Store
  | none => .error .useAfterFree
  | some contents => .ok { s with contents := contents }

def withGroups : Option (Counters 32) → Except Fault Store
  | none => .error .useAfterFree
  | some groups => .ok { s with groups := groups }

def init (i : Nat) : Store := s.put i { type := some .vsm }

def initDelimiter (i : Nat) : Store := s.put i { type := some .delimiter }

def initJoin (i : Nat) : Store := s.put i { type := some .join }

def initLeave (i : Nat) : Store := s.put i { type := some .leave }

def initCounted (i : Nat) (type : MsgType) : Store :=
  { s with contents := s.contents.alloc 0 }.put i
    { type := some type, content := s.contents.next }

def initSize (i size : Nat) : Store :=
  if size ≤ 33 then s.put i { type := some .vsm } else s.initCounted i .lmsg

/-- `msg_t::init_data`; `ffn` says that there is a function to free the data. -/
def initData (i : Nat) (ffn : Bool) : Store :=
  if ffn then s.initCounted i .lmsg else s.put i { type := some .cmsg }

def initExternalStorage (i : Nat) : Store := s.initCounted i .zclmsg

/-- `msg_t::set_group`, of a handle that has no long group yet. A short one is in the handle. -/
def setGroup (i length : Nat) : Except Fault Store := do
  let x ← s.slot i
  if 255 < length then .ok s
  else if 14 < length then
    .ok ({ s with groups := s.groups.alloc 1 }.put i { x.msg with group := some s.groups.next })
  else .ok s

/-- Give back references to the content: all there are if it is not shared. -/
def dropContent (h : Handle) (refs : Nat) : Except Fault Store :=
  if h.counted then
    if h.shared then s.withContents (s.contents.sub h.content refs)
    else s.withContents (s.contents.free h.content)
  else .ok s

def dropGroup (h : Handle) : Except Fault Store :=
  match h.group with
  | none => .ok s
  | some g => s.withGroups (s.groups.sub g 1)

/-- `msg_t::close`, and whether it returns 0. -/
def close (i : Nat) : Except Fault (Bool × Store) := do
  let x ← s.slot i
  if x.msg.type = none then .ok (false, s)
  else do
    let s ← s.dropContent x.msg 1
    let s ← s.dropGroup x.msg
    .ok (true, s.put i x.msg.closed)

def shareContent (h : Handle) (refs : Nat) : Except Fault Store :=
  if h.counted then
    if h.shared then s.withContents (s.contents.add h.content refs)
    else s.withContents (s.contents.set h.content (.ofNat 32 (refs + 1)))
  else .ok s

def shareGroup (h : Handle) : Except Fault Store :=
  match h.group with
  | none => .ok s
  | some g => s.withGroups (s.groups.add g 1)

end Store

def Handle.sharing (h : Handle) : Handle := { h with shared := h.shared || h.counted }

namespace Store

variable (s : Store)

/-- What `msg_t::copy` does when both handles are in order. -/
def duplicate (dst src : Nat) : Except Fault Store := do
  let x ← s.slot src
  let s ← s.shareContent x.msg 1
  let s ← s.shareGroup x.msg
  .ok ((s.put src x.msg.sharing).put dst x.msg.sharing)

def copy (dst src : Nat) : Except Fault Store := do
  let x ← s.slot src
  if x.msg.type = none then .ok s
  else do
    let (closed, s) ← s.close dst
    if closed then s.duplicate dst src else .ok s

def move (dst src : Nat) : Except Fault Store := do
  let x ← s.slot src
  if x.msg.type = none then .ok s
  else do
    let (closed, s) ← s.close dst
    if closed then do
      let x ← s.slot src
      .ok ((s.put dst x.msg).init src)
    else .ok s

/-- The start of `dist_t::distribute` for so many matching pipes, with `msg_t::add_refs`, which
    gets their number as an `int`. -/
def distribute (i matching : Nat) : Except Fault Store := do
  let x ← s.slot i
  if matching = 0 then do
    let (closed, s) ← s.close i
    if closed then .ok (s.init i) else .error (.assertion .distribute)
  else
    let refs := int (matching - 1)
    if x.msg.type = some .vsm ∨ refs = 0 then .ok (s.send i x.msg { remaining := matching })
    else if refs < 0 then .error (.assertion .addRefs)
    else do
      let s ← s.shareContent x.msg refs.toNat
      .ok (s.send i x.msg.sharing { remaining := matching })

/-- `dist_t::write`: the next pipe takes the message or refuses it. -/
def offer (i : Nat) (taken : Bool) : Except Fault Store := do
  let x ← s.slot i
  match x.sending with
  | none => .ok s
  | some d =>
    let rest := { d with remaining := d.remaining - 1 }
    if taken then
      let t := s.send i x.msg { rest with taken := d.taken + 1 }
      .ok { t with slots := t.slots ++ [{ msg := x.msg }] }
    else .ok (s.send i x.msg { rest with failed := d.failed + 1 })

def rmRefs (i : Nat) (refs : Int) : Except Fault Store := do
  let x ← s.slot i
  if refs < 0 then .error (.assertion .rmRefs)
  else if x.msg.counted && x.msg.shared then s.dropContent x.msg refs.toNat
  else do
    let (_, s) ← s.close i
    .ok s

def finish (i : Nat) : Except Fault Store := do
  let x ← s.slot i
  match x.sending with
  | none => .ok s
  | some d =>
    let failed := int d.failed
    if x.msg.type = some .vsm ∨ failed = 0 then .ok (s.init i)
    else do
      let s ← s.rmRefs i failed
      .ok (s.init i)

end Store

/-- The calls of `msg_t`, and the parts of `dist_t::distribute`. -/
inductive StoreAction where
  | declare
  | init (i : Nat)
  | initDelimiter (i : Nat)
  | initJoin (i : Nat)
  | initLeave (i : Nat)
  | initSize (i size : Nat)
  | initData (i : Nat) (ffn : Bool)
  | initExternalStorage (i : Nat)
  | setGroup (i length : Nat)
  | copy (dst src : Nat)
  | move (dst src : Nat)
  | close (i : Nat)
  | distribute (i matching : Nat)
  | offer (i : Nat) (taken : Bool)
  | finish (i : Nat)
  deriving Repr, DecidableEq

namespace Store

variable (s : Store)

def step : StoreAction → Except Fault Store
  | .declare => .ok { s with slots := s.slots ++ [{}] }
  | .init i => .ok (s.init i)
  | .initDelimiter i => .ok (s.initDelimiter i)
  | .initJoin i => .ok (s.initJoin i)
  | .initLeave i => .ok (s.initLeave i)
  | .initSize i size => .ok (s.initSize i size)
  | .initData i ffn => .ok (s.initData i ffn)
  | .initExternalStorage i => .ok (s.initExternalStorage i)
  | .setGroup i length => s.setGroup i length
  | .copy dst src => s.copy dst src
  | .move dst src => s.move dst src
  | .close i => (s.close i).map (·.2)
  | .distribute i matching => s.distribute i matching
  | .offer i taken => s.offer i taken
  | .finish i => s.finish i

def Idle (i : Nat) (P : Handle → Prop) : Prop :=
  ∃ x, s.slots[i]? = some x ∧ x.sending = none ∧ P x.msg

def Busy (i : Nat) (P : Handle → Distribution → Prop) : Prop :=
  ∃ x d, s.slots[i]? = some x ∧ x.sending = some d ∧ P x.msg d

def Allowed : StoreAction → Prop
  | .declare => True
  | .init i | .initDelimiter i | .initJoin i | .initLeave i | .initSize i _ | .initData i _
  | .initExternalStorage i => s.Idle i fun h => h.type = none
  | .setGroup i _ => s.Idle i fun h => h.type ≠ none ∧ h.group = none
  | .copy dst src | .move dst src => s.Idle dst (fun _ => True) ∧ s.Idle src fun _ => True
  | .close i => s.Idle i fun _ => True
  | .distribute i _ => s.Idle i fun h => h.type ≠ none
  | .offer i _ => s.Busy i fun _ d => 0 < d.remaining
  | .finish i => s.Busy i fun _ d => d.remaining = 0

end Store

end Zmq
