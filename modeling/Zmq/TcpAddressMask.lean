import Zmq.Lib.Run

/-! # Address filters

`tcp_address_mask_t` has a network address and the length of its prefix, which `resolve` reads
from a name. A peer passes `match_address` by its first bits; what `memcmp` or an index would read
behind the address of a `sockaddr` is a fault.
-/

namespace Zmq.TcpAddressMask

open Lib

inductive Family where
  | inet
  | inet6
  deriving Repr, DecidableEq

/-- The sizes of `in_addr` and `in6_addr`. -/
def Family.addrSize : Family → Nat
  | .inet => 4
  | .inet6 => 16

/-- The sizes of `sockaddr_in` and `sockaddr_in6`. -/
def Family.sockaddrSize : Family → Nat
  | .inet => 16
  | .inet6 => 28

/-- An address as a `sockaddr` has it, in network order. -/
structure Address where
  family : Family
  bytes : List UInt8
  length : bytes.length = family.addrSize
  deriving Repr, DecidableEq

/-- A filter that was resolved; before that `_address_mask` is -1. -/
structure Mask where
  networkAddress : Address
  addressMask : Nat
  le : addressMask ≤ 8 * networkAddress.family.addrSize
  deriving Repr, DecidableEq

/-! ## Names -/

/-- `strtol` with base 10, for a `long` of 64 bits. -/
def strtol (text : List UInt8) : Int :=
  let text := text.dropWhile fun c => c = 32 || (9 ≤ c && c ≤ 13)
  let digits := if text.head? = some 43 || text.head? = some 45 then text.tail else text
  let value : Int := (digits.takeWhile fun c => 48 ≤ c && c ≤ 57).foldl
    (fun n c => 10 * n + (c.toNat - 48 : Nat)) 0
  if text.head? = some 45 then max (-value) (-2 ^ 63) else min value (2 ^ 63 - 1)

inductive ResolveError where
  | einval
  /-- What `ip_resolver_t::resolve` returned. -/
  | address (rc : Int)
  deriving Repr, DecidableEq

def parseMask (address : Address) (mask : List UInt8) : Except ResolveError Mask :=
  if mask = [48] then .ok ⟨address, 0, Nat.zero_le _⟩
  else if bad : strtol mask < 1 ∨ 8 * address.family.addrSize < strtol mask then .error .einval
  else .ok ⟨address, (strtol mask).toNat, by omega⟩

/-- A name without its mask, and the mask, if there is a slash. -/
def splitMask (name : List UInt8) : List UInt8 × Option (List UInt8) :=
  let mask := name.reverse.takeWhile (· ≠ 47)
  match name.reverse.dropWhile (· ≠ 47) with
  | [] => (name, none)
  | _ :: address => (address.reverse, some mask.reverse)

/-- `tcp_address_mask_t::resolve`, over what `ip_resolver_t` makes of the address. -/
def resolve (resolver : List UInt8 → Except Int Address) (name : List UInt8) :
    Except ResolveError Mask :=
  if (splitMask name).2 = some [] then .error .einval
  else do
    let address ← (resolver (splitMask name).1).mapError .address
    match (splitMask name).2 with
    | none => .ok ⟨address, 8 * address.family.addrSize, Nat.le_refl _⟩
    | some mask => parseMask address mask

def decimal (n : Nat) : List UInt8 := (Nat.toDigits 10 n).map fun c => .ofNat c.toNat

theorem strtol_decimal {n : Nat} (le : n ≤ 128) : strtol (decimal n) = n ∧
    (decimal n = [48] → n = 0) ∧ decimal n ≠ [] ∧ 47 ∉ decimal n := by
  have all : ∀ n < 129, strtol (decimal n) = n ∧
      (decimal n = [48] → n = 0) ∧ decimal n ≠ [] ∧ 47 ∉ decimal n := by
    decide +kernel
  exact all n (by omega)

/-- Every prefix that fits the address can be asked for. -/
theorem resolve_decimal {resolver : List UInt8 → Except Int Address} {text : List UInt8}
    {address : Address} (known : resolver text = .ok address) {n : Nat}
    (le : n ≤ 8 * address.family.addrSize) :
    resolve resolver (text ++ 47 :: decimal n) = .ok ⟨address, n, le⟩ := by
  have bound : n ≤ 128 := by
    have : address.family.addrSize ≤ 16 := by cases address.family <;> decide
    omega
  obtain ⟨value, zero, some_, free⟩ := strtol_decimal bound
  have other : ∀ c ∈ (decimal n).reverse, decide (c ≠ 47) = true := by
    intro c there
    exact decide_eq_true fun same => free (same ▸ List.mem_reverse.mp there)
  have split : splitMask (text ++ 47 :: decimal n) = (text, some (decimal n)) := by
    have reversed : (text ++ 47 :: decimal n).reverse =
        (decimal n).reverse ++ 47 :: text.reverse := by simp
    rw [splitMask, reversed, List.takeWhile_append_of_pos other, List.dropWhile_append_of_pos other]
    simp
  rw [resolve, split, if_neg (by simpa using some_), known]
  change parseMask address (decimal n) = _
  unfold parseMask
  by_cases none : decimal n = [48]
  · obtain rfl := zero none
    rw [if_pos none]
  · have positive : n ≠ 0 := by
      rintro rfl
      exact none rfl
    rw [if_neg none, dif_neg (by omega)]
    simp [value]

example : resolve (fun _ => .ok ⟨.inet, [10, 0, 0, 0], rfl⟩) [49, 48, 47, 56] =
    .ok ⟨⟨.inet, [10, 0, 0, 0], rfl⟩, 8, by decide⟩ := by
  decide +kernel

/-! ## Filters -/

inductive Fault where
  | assertion
  | outOfBounds

def byte (bytes : List UInt8) (i : Nat) : Except Fault UInt8 :=
  if i < bytes.length then .ok (bytes.getD i 0) else .error .outOfBounds

def memcmp (ours theirs : List UInt8) (n : Nat) : Except Fault Bool :=
  if n ≤ ours.length ∧ n ≤ theirs.length then
    .ok (decide (∀ i < n, ours.getD i 0 = theirs.getD i 0))
  else .error .outOfBounds

/-- `0xffU << (8 - mask % 8)` in eight bits, for `mask % 8`. -/
def lastByteBits (n : Nat) : UInt8 := .ofNat (0xff <<< (8 - n))

def matchAddress (m : Mask) (ss : Address) (ssLen : Nat) : Except Fault Bool :=
  if ssLen < 16 then .error .assertion
  else if ss.family ≠ m.networkAddress.family then .ok false
  else if 0 < m.addressMask then
    if ssLen ≠ ss.family.sockaddrSize then .error .assertion
    else do
      let mask := min m.addressMask (ss.family.addrSize * 8)
      let fullBytes := mask / 8
      let same ← memcmp m.networkAddress.bytes ss.bytes fullBytes
      if !same then .ok false
      else if lastByteBits (mask % 8) ≠ 0 then do
        let their ← byte ss.bytes fullBytes
        let our ← byte m.networkAddress.bytes fullBytes
        .ok (their &&& lastByteBits (mask % 8) == our &&& lastByteBits (mask % 8))
      else .ok true
  else .ok true

/-! ## Bits -/

def bit (b : UInt8) (i : Nat) : Bool := b.toNat.testBit (7 - i)

/-- The bits of an address in network order. -/
def Address.bit (a : Address) (i : Nat) : Bool :=
  TcpAddressMask.bit (a.bytes.getD (i / 8) 0) (i % 8)

theorem testBit_lastByteBits {n : Nat} (le : n ≤ 8) (k : Nat) :
    (lastByteBits n).toNat.testBit k = decide (8 - n ≤ k ∧ k < 8) := by
  rw [lastByteBits, UInt8.toNat_ofNat', Nat.testBit_mod_two_pow, Nat.testBit_shiftLeft,
    show 0xff = 2 ^ 8 - 1 from rfl, Nat.testBit_two_pow_sub_one]
  grind

theorem masked_eq_iff {n : Nat} (le : n ≤ 8) (x y : UInt8) :
    x &&& lastByteBits n = y &&& lastByteBits n ↔ ∀ i < n, bit x i = bit y i := by
  rw [← UInt8.toNat_inj, UInt8.toNat_and, UInt8.toNat_and]
  constructor
  · intro same i less
    have here := congrArg (·.testBit (7 - i)) same
    have inside : 8 - n ≤ 7 - i ∧ 7 - i < 8 := by omega
    simp only [Nat.testBit_and, testBit_lastByteBits le, decide_eq_true inside,
      Bool.and_true] at here
    exact here
  · intro same
    apply Nat.eq_of_testBit_eq
    intro k
    rw [Nat.testBit_and, Nat.testBit_and, testBit_lastByteBits le]
    by_cases inside : 8 - n ≤ k ∧ k < 8
    · have here := same (7 - k) (by omega)
      rw [bit, bit, show 7 - (7 - k) = k by omega] at here
      rw [here]
    · rw [decide_eq_false inside, Bool.and_false, Bool.and_false]

theorem byte_eq_iff (x y : UInt8) : x = y ↔ ∀ i < 8, bit x i = bit y i := by
  have all (b : UInt8) : b &&& lastByteBits 8 = b := UInt8.and_neg_one
  rw [← masked_eq_iff (Nat.le_refl 8), all, all]

theorem bits_eq_iff (a b : Address) (mask : Nat) : (∀ i < mask, a.bit i = b.bit i) ↔
    (∀ k < mask / 8, a.bytes.getD k 0 = b.bytes.getD k 0) ∧
      ∀ i < mask % 8, bit (a.bytes.getD (mask / 8) 0) i = bit (b.bytes.getD (mask / 8) 0) i := by
  simp only [byte_eq_iff]
  constructor
  · intro same
    have place (k i : Nat) (inside : i < 8) (less : k * 8 + i < mask) :
        bit (a.bytes.getD k 0) i = bit (b.bytes.getD k 0) i := by
      have here := same (k * 8 + i) less
      rwa [Address.bit, Address.bit, show (k * 8 + i) / 8 = k by omega,
        show (k * 8 + i) % 8 = i by omega] at here
    exact ⟨fun k less i inside => place k i inside (by omega),
      fun i less => place _ i (by omega) (by omega)⟩
  · rintro ⟨whole, part⟩ i less
    by_cases last : i / 8 < mask / 8
    · exact whole _ last _ (by omega)
    · rw [Address.bit, Address.bit, show i / 8 = mask / 8 by omega]
      exact part _ (by omega)

/-- A filter lets through the peers of its family that have its first bits, and reads nothing but
    the two addresses. -/
theorem match_address_iff (m : Mask) (ss : Address) :
    matchAddress m ss ss.family.sockaddrSize = .ok (decide (ss.family = m.networkAddress.family ∧
      ∀ i < m.addressMask, m.networkAddress.bit i = ss.bit i)) := by
  have size : ¬ ss.family.sockaddrSize < 16 := by cases ss.family <;> decide
  rw [matchAddress, if_neg size]
  by_cases family : ss.family = m.networkAddress.family
  · have le := m.le
    have ours := m.networkAddress.length
    have theirs := ss.length
    rw [← family] at le ours
    have mask : min m.addressMask (ss.family.addrSize * 8) = m.addressMask := by omega
    have full : m.addressMask / 8 ≤ m.networkAddress.bytes.length ∧
      m.addressMask / 8 ≤ ss.bytes.length := by omega
    have part : lastByteBits (m.addressMask % 8) = 0 ↔ m.addressMask % 8 = 0 := by
      have all : ∀ n < 8, lastByteBits n = 0 ↔ n = 0 := by decide
      exact all _ (by omega)
    simp only [if_neg (not_not.mpr family), mask, memcmp, if_pos full, ok_bind]
    by_cases none : m.addressMask = 0
    · simp [none, family]
    simp only [bits_eq_iff, family, Nat.pos_of_ne_zero none, ne_eq, not_true_eq_false, if_false,
      if_true, true_and, Bool.decide_and,
      ← masked_eq_iff (Nat.mod_lt m.addressMask Nat.succ_pos').le]
    generalize decide (∀ k < m.addressMask / 8,
      m.networkAddress.bytes.getD k 0 = ss.bytes.getD k 0) = whole
    by_cases rest : lastByteBits (m.addressMask % 8) = 0
    · cases whole <;> simp [rest]
    · have left := mt part.mpr rest
      have inside : m.addressMask / 8 < ss.family.addrSize := by omega
      cases whole <;> simp [rest, byte, ours, theirs, inside, eq_comm, beq_eq_decide]
  · rw [if_pos family]
    simp [family]

end Zmq.TcpAddressMask
