import Mathlib

/-! # Boxes

Authenticated encryption with a shared key that two parties compute from their key pairs. The
laws are the ones a program may rely on: a box has sixteen bytes more than what is in it, and
it opens under the key and the nonce it was made with.

There are two conventions for buffers. The plain one has the message and the box; in the
padded one 32 zeros stand before the message and 16 before the box.
-/

namespace Zmq.Lib

structure Box where
  /-- The shared key of a public and a secret key, if the public key is sound. -/
  beforenm : List UInt8 → List UInt8 → Option (List UInt8)
  /-- The box with a key and a nonce. -/
  sealed : List UInt8 → List UInt8 → List UInt8 → List UInt8
  opened : List UInt8 → List UInt8 → List UInt8 → Option (List UInt8)
  sealed_length : ∀ key nonce plain, (sealed key nonce plain).length = plain.length + 16
  opened_eq_some : ∀ key nonce cipher plain,
    opened key nonce cipher = some plain ↔ cipher = sealed key nonce plain

namespace Box

variable (b : Box) (key nonce : List UInt8)

@[simp] theorem opened_sealed (plain : List UInt8) :
    b.opened key nonce (b.sealed key nonce plain) = some plain :=
  (b.opened_eq_some ..).mpr rfl

/-- A box made with key pairs. -/
def box (plain nonce pk sk : List UInt8) : Option (List UInt8) :=
  (b.beforenm pk sk).map fun key => b.sealed key nonce plain

def boxOpen (cipher nonce pk sk : List UInt8) : Option (List UInt8) :=
  match b.beforenm pk sk with
  | none => none
  | some key => b.opened key nonce cipher

/-! ## The padded convention -/

def zeros (n : Nat) : List UInt8 := List.replicate n 0

def afternm (padded : List UInt8) : List UInt8 := zeros 16 ++ b.sealed key nonce (padded.drop 32)

def openAfternm (padded : List UInt8) : Option (List UInt8) :=
  (b.opened key nonce (padded.drop 16)).map (zeros 32 ++ ·)

@[simp] theorem drop_zeros (n : Nat) (bytes : List UInt8) : (zeros n ++ bytes).drop n = bytes := by
  simp [zeros]

/-- The two conventions differ in the zeros only. -/
theorem afternm_zeros (plain : List UInt8) :
    (b.afternm key nonce (zeros 32 ++ plain)).drop 16 = b.sealed key nonce plain := by
  rw [afternm, drop_zeros, drop_zeros]

theorem openAfternm_zeros (cipher : List UInt8) :
    (b.openAfternm key nonce (zeros 16 ++ cipher)).map (·.drop 32) = b.opened key nonce cipher := by
  rw [openAfternm, drop_zeros, Option.map_map]
  cases b.opened key nonce cipher <;> simp

/-- Boxes that hide nothing, with the key and the nonce for a tag. They keep the laws. -/
def transparent : Box where
  beforenm pk sk := some (List.zipWith (· ^^^ ·) pk sk)
  sealed key nonce plain := (key ++ nonce ++ zeros 16).take 16 ++ plain
  opened key nonce cipher :=
    if cipher.take 16 = (key ++ nonce ++ zeros 16).take 16 then some (cipher.drop 16) else none
  sealed_length key nonce plain := by
    simp [zeros]
    omega
  opened_eq_some key nonce cipher plain := by
    have long : ((key ++ nonce ++ zeros 16).take 16).length = 16 := by
      simp [zeros]
      omega
    generalize (key ++ nonce ++ zeros 16).take 16 = tag at long
    constructor
    · intro h
      split at h
      · rename_i same
        cases h
        rw [← same, List.take_append_drop]
      · cases h
    · rintro rfl
      simp [← long]

end Box

end Zmq.Lib
