import Zmq.Engine.Ws
import Zmq.Wire.V2
import Zmq.Wire.Ws

/-! # WebSocket frames

`ws_encoder_t`, and what `ws_decoder_t` makes of the binary frames it writes. A client masks what
it sends with four random bytes, which stand in the frame; the byte of flags and the mark of a
subscription are masked as the beginning of the body.
-/

namespace Zmq.Wire

open Lib

/-! ## The encoder -/

def putUint32 (n : UInt32) : List UInt8 :=
  [.ofNat (n.toNat >>> 24), .ofNat (n.toNat >>> 16), .ofNat (n.toNat >>> 8), .ofNat n.toNat]

def isBinary (m : Msg) : Bool := !(m.isPing || m.isPong || m.isCloseCmd)

def wsFirstByte (m : Msg) : UInt8 :=
  if m.isPing then 0x89 else if m.isPong then 0x8a else if m.isCloseCmd then 0x88 else 0x82

/-- `_must_mask` and the size of what follows. -/
def wsSize (mustMask : Bool) (size : Nat) : List UInt8 :=
  let first : UInt8 := if mustMask then 0x80 else 0
  if size ≤ 125 then [first ||| .ofNat size]
  else if size ≤ 0xffff then [first ||| 126, .ofNat (size >>> 8), .ofNat size]
  else (first ||| 127) :: putUint64 (.ofNat size)

def wsFlags (m : Msg) : List UInt8 :=
  if isBinary m then
    [(if m.more then WsFlag.more else 0) ||| (if m.command then WsFlag.command else 0)]
  else []

/-- What stands before the body and is masked with it. -/
def wsPrelude (m : Msg) : List UInt8 := wsFlags m ++ legacyMark m

/-- Mask with `generate_random ()`, if there is to be a mask. -/
def wsMasked (random : Option UInt32) (index : Nat) (bytes : List UInt8) : List UInt8 :=
  match random with
  | none => bytes
  | some random => applyMask (putUint32 random) index bytes

def messageReadyWs (random : Option UInt32) (m : Msg) : List UInt8 :=
  let size := m.size + (if isBinary m then 1 else 0) + (if m.isSubscribe || m.isCancel then 1 else 0)
  [wsFirstByte m] ++ wsSize random.isSome size ++ (random.map putUint32).getD [] ++
    wsMasked random 0 (wsPrelude m)

/-- `ws_encoder_t`; `random` is there if `_must_mask` is set. -/
def wsEncoder (random : Option UInt32) : Framing where
  header := messageReadyWs random
  body m :=
    let index := (if isBinary m then 1 else 0) + (if m.isSubscribe || m.isCancel then 1 else 0)
    wsMasked random index m.data

/-! ## Masks -/

section Masks

variable {mask : List UInt8} {random : Option UInt32} {index : Nat}

theorem applyMask_append (mask : List UInt8) (index : Nat) (a b : List UInt8) :
    applyMask mask index (a ++ b) =
      applyMask mask index a ++ applyMask mask (index + a.length) b := by
  unfold applyMask
  rw [List.mapIdx_append]
  congr 1
  apply List.mapIdx_eq_mapIdx_iff.mpr
  intro i bound
  rw [Nat.add_assoc, Nat.add_comm i]

theorem applyMask_applyMask (mask : List UInt8) (index : Nat) (bytes : List UInt8) :
    applyMask mask index (applyMask mask index bytes) = bytes := by
  unfold applyMask
  apply List.ext_getElem
  · simp
  · intro i _ _
    simp

@[simp] theorem length_wsMasked (random : Option UInt32) (index : Nat) (bytes : List UInt8) :
    (wsMasked random index bytes).length = bytes.length := by
  cases random <;> simp [wsMasked, applyMask]

theorem wsMasked_append (random : Option UInt32) (index : Nat) (a b : List UInt8) :
    wsMasked random index (a ++ b) =
      wsMasked random index a ++ wsMasked random (index + a.length) b := by
  cases random with
  | none => rfl
  | some random => exact applyMask_append ..

end Masks

/-! ## Frames -/

section Frames

variable {r : WsRules} {m : Msg} {size : Nat} {g : WsState}

theorem length_wsPrelude (m : Msg) : (wsPrelude m).length =
    (if isBinary m then 1 else 0) + (if m.isSubscribe || m.isCancel then 1 else 0) := by
  rw [wsPrelude, List.length_append, length_legacyMark, wsFlags]
  cases isBinary m <;> rfl

theorem wsEncoder_frame (random : Option UInt32) (m : Msg) :
    (wsEncoder random).frame m =
      [wsFirstByte m] ++ wsSize random.isSome (wsPrelude m ++ m.data).length ++
      (random.map putUint32).getD [] ++ wsMasked random 0 (wsPrelude m ++ m.data) := by
  have total : (wsPrelude m ++ m.data).length = m.size + (if isBinary m then 1 else 0) +
      (if m.isSubscribe || m.isCancel then 1 else 0) := by
    rw [List.length_append, length_wsPrelude, Msg.size]
    omega
  rw [Framing.frame, wsMasked_append, total, length_wsPrelude, Nat.zero_add]
  simp only [wsEncoder, messageReadyWs, List.append_assoc]

theorem wsSize_short (mustMask : Bool) (short : size ≤ 125) :
    let byte := (if mustMask then (0x80 : UInt8) else 0) ||| UInt8.ofNat size
    decide (byte &&& 0x80 ≠ 0) = mustMask ∧ byte &&& 0x7f = .ofNat size ∧
      UInt8.ofNat size < 126 := by
  have all : ∀ mustMask : Bool, ∀ n : Fin 126,
      let byte := (if mustMask then (0x80 : UInt8) else 0) ||| UInt8.ofNat n
      decide (byte &&& 0x80 ≠ 0) = mustMask ∧ byte &&& 0x7f = .ofNat n ∧ UInt8.ofNat n < 126 := by
    decide +kernel
  exact all mustMask ⟨size, by omega⟩

theorem toUInt64_ofNat (small : size < 256) : (UInt8.ofNat size).toUInt64 = .ofNat size := by
  apply UInt64.toNat_inj.mp
  rw [UInt8.toNat_toUInt64, UInt8.toNat_ofNat_of_lt' small,
    UInt64.toNat_ofNat_of_lt' (by simp only [UInt64.size]; omega)]

theorem shortSize_ofNat (short : size ≤ 0xffff) :
    (UInt8.ofNat (size >>> 8)).toUInt64 <<< 8 ||| (UInt8.ofNat size).toUInt64 = .ofNat size := by
  apply UInt64.toNat_inj.mp
  have high : size >>> 8 = size / 256 := Nat.shiftRight_eq_div_pow size 8
  rw [high, UInt64.toNat_or, UInt64.toNat_shiftLeft, UInt8.toNat_toUInt64, UInt8.toNat_toUInt64,
    UInt8.toNat_ofNat_of_lt' (by simp only [UInt8.size]; omega), UInt8.toNat_ofNat',
    UInt64.toNat_ofNat_of_lt' (by simp only [UInt64.size]; omega)]
  have low : size % 2 ^ 8 < 2 ^ 8 := Nat.mod_lt _ (by decide)
  have shifted : (size / 256) <<< 8 % 2 ^ 64 = (size / 256) <<< 8 := by
    exact Nat.mod_eq_of_lt (by omega)
  rw [show (8 : UInt64).toNat % 64 = 8 from rfl, shifted, ← Nat.shiftLeft_add_eq_or_of_lt low,
    Nat.shiftLeft_eq]
  omega

theorem leads_ws_size (opcode : Opcode) (rest : List UInt8) (bound : size < 2 ^ 64)
    (next : r.afterSize opcode (.ofNat size) = .more g) :
    r.pull.Leads (.sizeFirstByte opcode) (wsSize r.mustMask size ++ rest) [] g rest := by
  obtain ⟨limit, mustMask⟩ := r
  simp only [wsSize]
  split
  · rename_i short
    obtain ⟨masks, same, small⟩ := wsSize_short mustMask short
    rw [← same] at small
    have size := congrArg UInt8.toUInt64 same
    rw [toUInt64_ofNat (by omega)] at size
    refine .more [_] rfl ?_ (.refl _ _)
    exact (if_neg (not_not.mpr masks)).trans
      ((if_pos small).trans ((congrArg (WsRules.afterSize _ opcode) size).trans next))
  · split
    · rename_i short
      have turn : ∀ mustMask : Bool, (WsRules.pull ⟨limit, mustMask⟩).turn (.sizeFirstByte opcode)
          [(if mustMask then 0x80 else 0) ||| 126] = .more (.shortSize opcode) := by
        intro mustMask
        cases mustMask <;> rfl
      refine .more [_] rfl (turn mustMask)
        (.more [UInt8.ofNat (size >>> 8), UInt8.ofNat size] rfl ?_ (.refl _ _))
      simp only [WsRules.pull, List.getD_cons_zero, List.getD_cons_succ, shortSize_ofNat short, next]
    · have turn : ∀ mustMask : Bool, (WsRules.pull ⟨limit, mustMask⟩).turn (.sizeFirstByte opcode)
          [(if mustMask then 0x80 else 0) ||| 127] = .more (.longSize opcode) := by
        intro mustMask
        cases mustMask <;> rfl
      have read := getUint64_putUint64 (.ofNat size) []
      rw [List.append_nil] at read
      refine .more [_] rfl (turn mustMask) (.more (putUint64 (UInt64.ofNat size)) rfl ?_ (.refl _ _))
      simp only [WsRules.pull, read, next]

theorem payload_binary (mask : List UInt8) (some : 0 < size) (bound : size < 2 ^ 64) :
    r.payload .binary (.ofNat size) mask = .more (.flags (.ofNat size) mask) := by
  have nonzero : UInt64.ofNat size ≠ 0 := by
    intro zero
    have same := congrArg UInt64.toNat zero
    rw [UInt64.toNat_ofNat_of_lt' bound, UInt64.toNat_zero] at same
    omega
  rw [WsRules.payload, if_pos rfl, if_neg nonzero]

def wsReceived (m : Msg) : Frame := ⟨frameFlags m.more m.command, legacyMark m ++ m.data⟩

def wsKey (random : Option UInt32) : List UInt8 := (random.map putUint32).getD []

theorem wsMsgFlags_wsFlags (m : Msg) :
    wsMsgFlags ((if m.more then WsFlag.more else 0) ||| (if m.command then WsFlag.command else 0)) =
      frameFlags m.more m.command := by
  cases m.more <;> cases m.command <;> decide

theorem leads_ws_payload (random : Option UInt32) (rest : List UInt8) (binary : isBinary m = true)
    (bound : m.size + 2 < 2 ^ 64) :
    (WsRules.pull ⟨none, random.isSome⟩).Leads
      (.flags (.ofNat (wsPrelude m ++ m.data).length) (wsKey random))
      (wsMasked random 0 (wsPrelude m ++ m.data) ++ rest) [wsReceived m] .opcode rest := by
  generalize flags : (if m.more then WsFlag.more else 0) |||
    (if m.command then WsFlag.command else 0) = byte
  have known := wsMsgFlags_wsFlags m
  rw [flags] at known
  have prelude : wsPrelude m ++ m.data = [byte] ++ (legacyMark m ++ m.data) := by
    rw [wsPrelude, wsFlags, if_pos binary, flags, List.append_assoc]
  have marked : (legacyMark m ++ m.data).length < 2 ^ 64 := by
    have marked := length_legacyMark_le m
    rw [List.length_append]
    exact Nat.lt_of_le_of_lt (by rw [Msg.size]; omega) bound
  have size : UInt64.ofNat ([byte] ++ (legacyMark m ++ m.data)).length - 1 =
      .ofNat (legacyMark m ++ m.data).length := by
    simp
  rw [prelude, wsMasked_append, List.append_assoc]
  have turn : (WsRules.pull ⟨none, random.isSome⟩).turn
      (.flags (.ofNat ([byte] ++ (legacyMark m ++ m.data)).length) (wsKey random))
      (wsMasked random 0 [byte]) = .more (.body .binary (frameFlags m.more m.command)
        (.ofNat (legacyMark m ++ m.data).length) (wsKey random)) := by
    simp only [WsRules.pull, WsRules.sized]
    cases random with
    | none => simp [wsMasked, known]
    | some random => simp [wsMasked, wsKey, applyMask, putUint32, known]
  refine .more (wsMasked random 0 [byte]) (by simp [WsRules.pull]) turn ?_
  refine .emit (wsMasked random 1 (legacyMark m ++ m.data)) ?_ ?_ (.refl _ _)
  · rw [length_wsMasked]
    exact (UInt64.toNat_ofNat_of_lt' marked).symm
  · cases random with
    | none => rfl
    | some random =>
      simp only [WsRules.pull, wsMasked, wsKey, maskIndex, wsReceived, Option.isSome_some,
        if_true, Option.map_some, Option.getD_some, applyMask_applyMask]

theorem leads_ws_frame (random : Option UInt32) (rest : List UInt8) (binary : isBinary m = true)
    (bound : m.size + 2 < 2 ^ 64) :
    (WsRules.pull ⟨none, random.isSome⟩).Leads .opcode ((wsEncoder random).frame m ++ rest)
      [wsReceived m] .opcode rest := by
  have first : wsFirstByte m = 0x82 := by
    simp only [isBinary, Bool.not_eq_true', Bool.or_eq_false_iff] at binary
    simp [wsFirstByte, binary]
  have payload := leads_ws_payload random rest binary bound
  have total : (wsPrelude m ++ m.data).length = m.size + 1 + (legacyMark m).length := by
    rw [List.length_append, wsPrelude, List.length_append, wsFlags, if_pos binary, Msg.size]
    simp only [List.length_singleton]
    omega
  have marked := length_legacyMark_le m
  have some : 0 < (wsPrelude m ++ m.data).length := by omega
  have fits : (wsPrelude m ++ m.data).length < 2 ^ 64 := by omega
  rw [wsEncoder_frame, first, List.append_assoc, List.append_assoc, List.append_assoc]
  refine .more [0x82] rfl rfl ?_
  cases random with
  | none =>
    exact (leads_ws_size (r := ⟨none, false⟩) .binary _ fits
      (payload_binary (r := ⟨none, false⟩) [] some fits)).trans payload
  | some random =>
    exact (leads_ws_size (r := ⟨none, true⟩) .binary _ fits rfl).trans
      (.more (putUint32 random) rfl (payload_binary (r := ⟨none, true⟩) _ some fits) payload)

end Frames

end Zmq.Wire
