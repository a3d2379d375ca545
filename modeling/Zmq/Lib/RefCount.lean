import Mathlib

/-! # Reference counting

Counters by address, and the slots that hold references to them. An address is not used again, and
each counter has a record of how often it was freed. A slot that is the only one may leave the
counter alone, so only the counter of a shared slot says something. Counters are words of `w` bits:
they are right about the references as long as there are fewer than `2 ^ w`.

While an operation runs some references are in no slot. `Accounted` says which ones, so that it
holds between the steps of the operation too: a reference is taken out of a slot by `exchange`, the
counter is changed, and the reference is put into a slot again.
-/

namespace Zmq.Lib

open Function

/-- How many references to each address there are in a list of slots. -/
def tally {σ : Type} (refs : σ → Nat → Nat) (slots : List σ) (a : Nat) : Nat :=
  (slots.map (refs · a)).sum

section Tally

variable {σ : Type} (refs : σ → Nat → Nat) {slots : List σ} {x : σ} {i : Nat}

theorem tally_append (a : Nat) : tally refs (slots ++ [x]) a = tally refs slots a + refs x a := by
  simp [tally]

theorem tally_set (there : slots[i]? = some x) (y : σ) (a : Nat) :
    tally refs (slots.set i y) a + refs x a = tally refs slots a + refs y a := by
  induction slots generalizing i with
  | nil => cases there
  | cons z rest ih =>
    cases i with
    | zero =>
      cases there
      simp only [tally, List.set_cons_zero, List.map_cons, List.sum_cons]
      omega
    | succ i =>
      have later := ih (i := i) (by simpa using there)
      simp only [tally, List.set_cons_succ, List.map_cons, List.sum_cons] at later ⊢
      omega

theorem le_tally (there : x ∈ slots) (a : Nat) : refs x a ≤ tally refs slots a :=
  List.single_le_sum (by simp) _ (List.mem_map_of_mem there)

end Tally

/-- The counters; one that is not there was freed or is yet to come. -/
structure Counters (w : Nat) where
  count : Nat → Option (BitVec w)
  next : Nat
  freed : Nat → Nat

namespace Counters

variable {w : Nat}

def empty : Counters w := ⟨fun _ => none, 0, fun _ => 0⟩

variable (h : Counters w)

def alloc (n : BitVec w) : Counters w :=
  { h with count := update h.count h.next (some n), next := h.next + 1 }

def set (a : Nat) (n : BitVec w) : Option (Counters w) :=
  (h.count a).map fun _ => { h with count := update h.count a (some n) }

def add (a k : Nat) : Option (Counters w) :=
  (h.count a).bind fun n => h.set a (n + .ofNat w k)

def free (a : Nat) : Option (Counters w) :=
  (h.count a).map fun _ =>
    { h with
      count := update h.count a none
      freed := update h.freed a (h.freed a + 1) }

/-- Subtract, and free the counter if it is zero then. -/
def sub (a k : Nat) : Option (Counters w) :=
  (h.count a).bind fun n =>
    if n - .ofNat w k = 0#w then h.free a else h.set a (n - .ofNat w k)

/-- Give back `k` references: all there are if the one who holds them does not share. -/
def drop (p : Option Nat) (shared : Bool) (k : Nat) : Option (Counters w) :=
  match p with
  | none => some h
  | some a => if shared then h.sub a k else h.free a

theorem drop_next {h' : Counters w} {p : Option Nat} {shared : Bool} {k : Nat}
    (done : h.drop p shared k = some h') : h'.next = h.next := by
  have free {a : Nat} (done : h.free a = some h') : h'.next = h.next := by
    obtain ⟨n, -, rfl⟩ := Option.map_eq_some_iff.mp done
    rfl
  unfold drop at done
  split at done
  · cases done
    rfl
  · split at done
    · obtain ⟨n, -, done⟩ := Option.bind_eq_some_iff.mp done
      split at done
      · exact free done
      · obtain ⟨n, -, rfl⟩ := Option.map_eq_some_iff.mp done
        rfl
    · exact free done

/-- Take `k` more references; the one who held the first begins to share. -/
def share (p : Option Nat) (shared : Bool) (k : Nat) : Option (Counters w) :=
  match p with
  | none => some h
  | some a => if shared then h.add a k else h.set a (.ofNat w (k + 1))

end Counters

def holding (p : Option Nat) (k a : Nat) : Nat := if p = some a then k else 0

section Holding

variable (p : Option Nat) (a k n : Nat)

@[simp] theorem holding_none : holding none k = fun _ => 0 := by
  funext a
  simp [holding]

@[simp] theorem holding_zero : holding p 0 = fun _ => 0 := by
  funext a
  simp [holding]

@[simp] theorem holding_self : holding (some a) k a = k := if_pos rfl

theorem update_holding : update (holding (some a) k) a n = holding (some a) n := by
  funext b
  by_cases same : b = a
  · simp [same]
  · simp [holding, same, Ne.symm same]

theorem holding_add : holding p (k + n) a = holding p k a + holding p n a := by
  unfold holding
  split <;> rfl

theorem holding_pos {p : Option Nat} {a k : Nat} (positive : 0 < holding p k a) :
    p = some a := by
  unfold holding at positive
  split at positive
  · rename_i points
    exact points
  · omega

end Holding

/-- The counters fit the slots and the references in hand. -/
structure Accounted {σ : Type} {w : Nat} (refs : σ → Nat → Nat) (shared : σ → Bool)
    (slots : List σ) (h : Counters w) (hand : Nat → Nat) : Prop where
  alive : ∀ a, (h.count a).isSome = true ↔ 0 < tally refs slots a + hand a
  bounded : ∀ a, 0 < tally refs slots a + hand a → a < h.next
  freed : ∀ a, h.freed a = if a < h.next ∧ tally refs slots a + hand a = 0 then 1 else 0
  counts : ∀ x ∈ slots, ∀ a, 0 < refs x a →
    if shared x then h.count a = some (.ofNat w (tally refs slots a + hand a))
    else tally refs slots a + hand a = 1

namespace Accounted

variable {σ : Type} {w : Nat} {refs : σ → Nat → Nat} {shared : σ → Bool} {slots : List σ} {h : Counters w}
  {hand hand' : Nat → Nat} {x y : σ} {i a k : Nat} {flag : Bool}

theorem empty : Accounted refs shared [] (.empty : Counters w) fun _ => 0 where
  alive a := by simp [Counters.empty, tally]
  bounded a := by simp [tally]
  freed a := by simp [Counters.empty]
  counts := by simp

section

variable (accounted : Accounted refs shared slots h hand)
include accounted

theorem exchange (there : slots[i]? = some x) (same : ∀ a, refs x a + hand a = refs y a + hand' a)
    (counts : ∀ a, 0 < refs y a →
      if shared y then h.count a = some (.ofNat w (tally refs slots a + hand a))
      else tally refs slots a + hand a = 1) : Accounted refs shared (slots.set i y) h hand' := by
  have owners : ∀ a, tally refs (slots.set i y) a + hand' a = tally refs slots a + hand a := by
    intro a
    have moved := tally_set refs there y a
    have traded := same a
    omega
  refine ⟨fun a => ?_, fun a => ?_, fun a => ?_, fun z among a holds => ?_⟩
  · rw [owners]
    exact accounted.alive a
  · rw [owners]
    exact accounted.bounded a
  · rw [owners]
    exact accounted.freed a
  · rw [owners]
    rcases List.mem_or_eq_of_mem_set among with among | rfl
    · exact accounted.counts z among a holds
    · exact counts a holds

theorem append (same : ∀ a, hand a = refs y a + hand' a)
    (counts : ∀ a, 0 < refs y a →
      if shared y then h.count a = some (.ofNat w (tally refs slots a + hand a))
      else tally refs slots a + hand a = 1) : Accounted refs shared (slots ++ [y]) h hand' := by
  have owners : ∀ a, tally refs (slots ++ [y]) a + hand' a = tally refs slots a + hand a := by
    intro a
    have traded := same a
    rw [tally_append]
    omega
  refine ⟨fun a => ?_, fun a => ?_, fun a => ?_, fun z among a holds => ?_⟩
  · rw [owners]
    exact accounted.alive a
  · rw [owners]
    exact accounted.bounded a
  · rw [owners]
    exact accounted.freed a
  · rw [owners]
    rcases List.mem_append.mp among with among | among
    · exact accounted.counts z among a holds
    · obtain rfl := List.mem_singleton.mp among
      exact counts a holds

theorem shared_of_hand (held : 0 < hand a)
    (among : x ∈ slots) (holds : 0 < refs x a) : shared x = true := by
  by_contra alone
  have counts := accounted.counts x among a holds
  rw [if_neg alone] at counts
  have share := le_tally refs among a
  omega

theorem set (held : 0 < hand a) (positive : 0 < tally refs slots a + k) :
    ∃ h', h.set a (.ofNat w (tally refs slots a + k)) = some h' ∧
      h'.count a = some (.ofNat w (tally refs slots a + k)) ∧
      Accounted refs shared slots h' (update hand a k) := by
  have owned : 0 < tally refs slots a + hand a := by omega
  obtain ⟨n, counter⟩ := Option.isSome_iff_exists.mp ((accounted.alive a).mpr owned)
  refine ⟨_, by rw [Counters.set, counter]; rfl, update_self .., ?_⟩
  refine ⟨fun b => ?_, fun b => ?_, fun b => ?_, fun x among b holds => ?_⟩ <;>
    rcases eq_or_ne b a with rfl | other
  · simpa using positive
  · simpa [other] using accounted.alive b
  · exact fun _ => accounted.bounded b owned
  · simpa [other] using accounted.bounded b
  · have before := accounted.freed b
    rw [if_neg (by omega)] at before
    rw [update_self, if_neg (by omega)]
    exact before
  · simpa [other] using accounted.freed b
  · rw [if_pos (accounted.shared_of_hand held among holds), update_self]
    exact update_self ..
  · simpa [other] using accounted.counts x among b holds

theorem add (held : 0 < hand a)
    (counter : h.count a = some (.ofNat w (tally refs slots a + hand a))) (k : Nat) :
    ∃ h', h.add a k = some h' ∧ h'.count a = some (.ofNat w (tally refs slots a + (hand a + k))) ∧
      Accounted refs shared slots h' (update hand a (hand a + k)) := by
  obtain ⟨h', done, result⟩ := accounted.set held (k := hand a + k) (by omega)
  refine ⟨h', ?_, result⟩
  rw [Counters.add, counter, Option.bind_some, ← BitVec.ofNat_add, Nat.add_assoc]
  exact done

theorem free (last : tally refs slots a = 0) (held : 0 < hand a) :
    ∃ h', h.free a = some h' ∧ Accounted refs shared slots h' (update hand a 0) := by
  have owned : 0 < tally refs slots a + hand a := by omega
  obtain ⟨n, counter⟩ := Option.isSome_iff_exists.mp ((accounted.alive a).mpr owned)
  refine ⟨_, by rw [Counters.free, counter]; rfl, ?_⟩
  refine ⟨fun b => ?_, fun b => ?_, fun b => ?_, fun x among b holds => ?_⟩ <;>
    rcases eq_or_ne b a with rfl | other
  · simp [last]
  · simpa [other] using accounted.alive b
  · simp [last]
  · simpa [other] using accounted.bounded b
  · have before := accounted.freed b
    rw [if_neg (by omega)] at before
    simp [before, last, accounted.bounded b owned]
  · simpa [other] using accounted.freed b
  · have share := le_tally refs among b
    omega
  · simpa [other] using accounted.counts x among b holds

/-- The counter is zero when the last reference is gone, and not before: there are too few
    references for it to wrap. -/
theorem sub (counter : h.count a = some (.ofNat w (tally refs slots a + hand a))) (positive : 0 < k)
    (held : k ≤ hand a) (few : tally refs slots a + hand a < 2 ^ w) :
    ∃ h', h.sub a k = some h' ∧
      (0 < tally refs slots a + (hand a - k) →
        h'.count a = some (.ofNat w (tally refs slots a + (hand a - k)))) ∧
      Accounted refs shared slots h' (update hand a (hand a - k)) := by
  have inHand : 0 < hand a := by omega
  have left : BitVec.ofNat w (tally refs slots a + hand a) - .ofNat w k =
      .ofNat w (tally refs slots a + (hand a - k)) := by
    rw [BitVec.ofNat_sub_ofNat_of_le _ _ (by omega) (by omega), Nat.add_sub_assoc held]
  have zero : BitVec.ofNat w (tally refs slots a + (hand a - k)) = 0#w ↔
      tally refs slots a + (hand a - k) = 0 := by
    rw [← BitVec.toNat_inj, BitVec.toNat_ofNat, Nat.mod_eq_of_lt (by omega), BitVec.toNat_zero]
  rw [Counters.sub, counter, Option.bind_some, left]
  by_cases last : tally refs slots a + (hand a - k) = 0
  · obtain ⟨h', done, result⟩ := accounted.free (by omega) inHand
    refine ⟨h', by rw [if_pos (zero.mpr last), done], fun some => by omega, ?_⟩
    rw [show hand a - k = 0 by omega]
    exact result
  · obtain ⟨h', done, count, result⟩ := accounted.set (k := hand a - k) inHand (by omega)
    exact ⟨h', by rw [if_neg (mt zero.mp last), done], fun _ => count, result⟩

end

theorem alloc (accounted : Accounted refs shared slots h fun _ => 0) (n : BitVec w) :
    tally refs slots h.next = 0 ∧
      Accounted refs shared slots (h.alloc n) (update (fun _ => 0) h.next 1) := by
  have unused : tally refs slots h.next = 0 := by
    by_contra used
    have bound := accounted.bounded h.next (by omega)
    omega
  refine ⟨unused, ⟨fun b => ?_, fun b => ?_, fun b => ?_, fun x among b holds => ?_⟩⟩ <;>
    rcases eq_or_ne b h.next with rfl | other
  · simp [Counters.alloc]
  · simpa [Counters.alloc, other] using accounted.alive b
  · simp [Counters.alloc]
  · intro owned
    have bound := accounted.bounded b (by simpa [other] using owned)
    simp only [Counters.alloc]
    omega
  · have before := accounted.freed h.next
    simp [Counters.alloc, before]
  · have before := accounted.freed b
    have sides : (b < h.next + 1) ↔ b < h.next := by omega
    simpa [Counters.alloc, other, sides] using before
  · have share := le_tally refs among h.next
    omega
  · simpa [Counters.alloc, other] using accounted.counts x among b holds

/-- What the references of a slot tell about the counter, with the other references in `slots`. -/
def Tells (refs : σ → Nat → Nat) (slots : List σ) (h : Counters w) (p : Option Nat) (flag : Bool)
    (k : Nat) : Prop :=
  ∀ a, p = some a →
    if flag then h.count a = some (.ofNat w (tally refs slots a + k)) else tally refs slots a + k = 1

variable {p : Option Nat}

theorem take (accounted : Accounted refs shared slots h fun _ => 0) (there : slots[i]? = some x)
    (points : ∀ a, refs x a = holding p k a) (empty : ∀ a, refs y a = 0) :
    Accounted refs shared (slots.set i y) h (holding p k) ∧
      (0 < k → Tells refs (slots.set i y) h p (shared x) k) := by
  refine ⟨accounted.exchange there (fun a => ?_) fun a holds => ?_, fun positive a pointer => ?_⟩
  · rw [points, empty, Nat.add_comm]
  · rw [empty] at holds
    omega
  · have tally := tally_set refs there y a
    have holds : refs x a = k := by rw [points, pointer, holding_self]
    have counts := accounted.counts x (List.mem_of_getElem? there) a (by omega)
    rw [empty, holds, Nat.add_zero] at tally
    rw [tally]
    exact counts

theorem place {n : Nat} (accounted : Accounted refs shared slots h (holding p (n + k)))
    (tells : Tells refs slots h p (shared y) (n + k)) (there : slots[i]? = some x)
    (empty : ∀ a, refs x a = 0) (points : ∀ a, refs y a = holding p n a) :
    Accounted refs shared (slots.set i y) h (holding p k) ∧
      Tells refs (slots.set i y) h p (shared y) k := by
  refine ⟨accounted.exchange there (fun a => ?_) fun a holds => ?_, fun a pointer => ?_⟩
  · rw [points, empty, holding_add, Nat.zero_add]
  · rw [points] at holds
    have pointer := holding_pos holds
    rw [pointer, holding_self]
    exact tells a pointer
  · have tally := tally_set refs there y a
    have holds : refs y a = n := by rw [points, pointer, holding_self]
    rw [empty, holds, Nat.add_zero] at tally
    rw [tally, Nat.add_assoc]
    exact tells a pointer

theorem drop (accounted : Accounted refs shared slots h (holding p k))
    (tells : Tells refs slots h p flag k) (positive : 0 < k)
    (few : ∀ a, p = some a → tally refs slots a + k < 2 ^ w) :
    ∃ h', h.drop p flag k = some h' ∧
      (∀ a, p = some a → 0 < tally refs slots a →
        h'.count a = some (.ofNat w (tally refs slots a))) ∧
      Accounted refs shared slots h' fun _ => 0 := by
  cases p with
  | none => exact ⟨h, rfl, nofun, by simpa using accounted⟩
  | some a =>
    have counter := tells a rfl
    have last := update_holding a k 0
    cases flag with
    | true =>
      obtain ⟨h', done, count, result⟩ := accounted.sub (a := a) (k := k)
        (by rw [holding_self]; exact counter) positive (holding_self a k).ge
        (by rw [holding_self]; exact few a rfl)
      rw [holding_self, Nat.sub_self] at count result
      rw [last, holding_zero] at result
      refine ⟨h', done, ?_, result⟩
      rintro b ⟨⟩ some
      exact count some
    | false =>
      rw [if_neg (by decide)] at counter
      obtain ⟨h', done, result⟩ := accounted.free (a := a) (by omega)
        (by rw [holding_self]; exact positive)
      rw [last, holding_zero] at result
      refine ⟨h', done, ?_, result⟩
      rintro b ⟨⟩ some
      omega

theorem share (accounted : Accounted refs shared slots h (holding p 1))
    (tells : Tells refs slots h p flag 1) (k : Nat) :
    ∃ h', h.share p flag k = some h' ∧ Accounted refs shared slots h' (holding p (k + 1)) ∧
      Tells refs slots h' p true (k + 1) := by
  cases p with
  | none => exact ⟨h, rfl, by simpa using accounted, nofun⟩
  | some a =>
    have counter := tells a rfl
    have held : 0 < holding (some a) 1 a := by simp
    obtain ⟨h', done, count, result⟩ :
        ∃ h', h.share (some a) flag k = some h' ∧
          h'.count a = some (.ofNat w (tally refs slots a + (k + 1))) ∧
          Accounted refs shared slots h' (update (holding (some a) 1) a (k + 1)) := by
      cases flag with
      | true =>
        rw [Nat.add_comm k]
        simpa [Counters.share] using
          accounted.add held (by rw [holding_self]; exact counter) k
      | false =>
        rw [if_neg (by decide)] at counter
        obtain ⟨h', done, result⟩ := accounted.set held (k := k + 1) (by omega)
        have alone : tally refs slots a = 0 := by omega
        refine ⟨h', ?_, result⟩
        simpa [Counters.share, alone] using done
    rw [update_holding] at result
    refine ⟨h', done, result, fun b pointer => ?_⟩
    cases pointer
    exact count

/-! The life of a slot. -/

section Slots

variable {z : σ} {j : Nat} (accounted : Accounted refs shared slots h fun _ => 0)
include accounted

theorem keep (there : slots[i]? = some x) (same : ∀ a, refs y a = refs x a)
    (flag : (∃ a, 0 < refs x a) → shared y = shared x) :
    Accounted refs shared (slots.set i y) h fun _ => 0 := by
  refine accounted.exchange there (fun a => by rw [same]) fun a holds => ?_
  rw [same] at holds
  rw [flag ⟨a, holds⟩]
  exact accounted.counts x (List.mem_of_getElem? there) a holds

theorem declare (empty : ∀ a, refs y a = 0) : Accounted refs shared (slots ++ [y]) h fun _ => 0 :=
  accounted.append (fun a => by rw [empty]) fun a holds => by rw [empty] at holds; omega

variable {p : Option Nat}

theorem release (there : slots[i]? = some x) (points : ∀ a, refs x a = holding p k a)
    (empty : ∀ a, refs y a = 0) (positive : 0 < k)
    (few : ∀ a, p = some a → tally refs slots a < 2 ^ w) :
    ∃ h', h.drop p (shared x) k = some h' ∧
      (∀ a, p = some a → 0 < tally refs (slots.set i y) a →
        h'.count a = some (.ofNat w (tally refs (slots.set i y) a))) ∧
      Accounted refs shared (slots.set i y) h' fun _ => 0 := by
  obtain ⟨taken, tells⟩ := accounted.take there points empty
  refine taken.drop (tells positive) positive fun a pointer => ?_
  have moved := tally_set refs there y a
  rw [empty, points, pointer, holding_self, Nat.add_zero] at moved
  rw [moved]
  exact few a pointer

theorem create (there : slots[i]? = some x) (empty : ∀ a, refs x a = 0)
    (points : ∀ a, refs y a = holding (some h.next) 1 a) {n : BitVec w}
    (first : n = 1 ∨ shared y = false) :
    Accounted refs shared (slots.set i y) (h.alloc n) fun _ => 0 := by
  obtain ⟨unused, allocated⟩ := accounted.alloc n
  have hand : update (fun _ => 0) h.next 1 = holding (some h.next) 1 := by
    rw [← update_holding h.next 0 1, holding_zero]
  rw [hand] at allocated
  have placed := (allocated.place (n := 1) (k := 0) (y := y) ?_ there empty points).1
  · simpa using placed
  · intro a pointer
    cases pointer
    rcases first with rfl | alone
    · simp [unused, Counters.alloc]
    · simp [alone, unused]

theorem multiply (there : slots[i]? = some x) (points : ∀ a, refs x a = holding p 1 a)
    (points' : ∀ a, refs y a = holding p (k + 1) a) (flag : p ≠ none → shared y = true)
    (blank : ∃ b, ∀ a, refs b a = 0) :
    ∃ h', h.share p (shared x) k = some h' ∧
      Accounted refs shared (slots.set i y) h' fun _ => 0 := by
  obtain ⟨b, empty⟩ := blank
  obtain ⟨taken, tells⟩ := accounted.take there points empty
  obtain ⟨h', done, shared', tells'⟩ := taken.share (tells one_pos) k
  have bound : i < slots.length := (List.getElem?_eq_some_iff.mp there).1
  refine ⟨h', done, ?_⟩
  have placed := (shared'.place (n := k + 1) (k := 0) (y := y) ?_
    (List.getElem?_set_self bound) empty points').1
  · simpa using placed
  · intro a pointer
    rw [flag (by simp [pointer])]
    exact tells' a pointer

theorem duplicate (apart : i ≠ j) (there : slots[j]? = some x)
    (points : ∀ a, refs x a = holding p 1 a) (there' : slots[i]? = some z)
    (empty : ∀ a, refs z a = 0) (points' : ∀ a, refs y a = holding p 1 a)
    (flag : p ≠ none → shared y = true) :
    ∃ h', h.share p (shared x) 1 = some h' ∧
      Accounted refs shared ((slots.set j y).set i y) h' fun _ => 0 := by
  obtain ⟨taken, tells⟩ := accounted.take there points empty
  obtain ⟨h', done, shared', tells'⟩ := taken.share (tells one_pos) 1
  have bound : j < slots.length := (List.getElem?_eq_some_iff.mp there).1
  have marked : Tells refs (slots.set j z) h' p (shared y) (1 + 1) := by
    intro a pointer
    rw [flag (by simp [pointer])]
    exact tells' a pointer
  obtain ⟨first, tells''⟩ := shared'.place (n := 1) (k := 1) marked
    (List.getElem?_set_self bound) empty points'
  rw [List.set_set] at first tells''
  have second := (first.place (n := 1) (k := 0) tells''
    (by rw [List.getElem?_set_ne apart.symm]; exact there') empty points').1
  exact ⟨h', done, by simpa using second⟩

theorem pass (there : slots[i]? = some x) (split : ∀ a, refs x a = refs y a + refs z a)
    (flag : shared y = shared x) (flag' : shared z = shared x) :
    Accounted refs shared (slots.set i y ++ [z]) h fun _ => 0 := by
  have counts := accounted.counts x (List.mem_of_getElem? there)
  have out : Accounted refs shared (slots.set i y) h (refs z) := by
    refine accounted.exchange there (fun a => by rw [split]; omega) fun a holds => ?_
    rw [flag]
    exact counts a (by rw [split]; omega)
  refine out.append (fun a => by omega) fun a holds => ?_
  have moved := tally_set refs there y a
  have before := counts a (by rw [split]; omega)
  rw [split] at moved
  rw [flag', show tally refs (slots.set i y) a + refs z a = tally refs slots a + 0 by omega]
  exact before

theorem transfer {w : σ} (apart : i ≠ j) (there : slots[j]? = some x)
    (points : ∀ a, refs x a = holding p k a) (positive : 0 < k) (there' : slots[i]? = some z)
    (empty : ∀ a, refs z a = 0) (points' : ∀ a, refs y a = holding p k a)
    (flag : shared y = shared x) (blank : ∀ a, refs w a = 0) :
    Accounted refs shared ((slots.set i y).set j w) h fun _ => 0 := by
  obtain ⟨taken, tells⟩ := accounted.take there points blank
  have placed := (taken.place (n := k) (k := 0) (by rw [flag]; exact tells positive)
    (by rw [List.getElem?_set_ne apart.symm]; exact there') empty points').1
  rw [List.set_comm _ _ apart]
  simpa using placed

end Slots

end Accounted

end Zmq.Lib
