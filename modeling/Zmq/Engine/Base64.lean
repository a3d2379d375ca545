import Zmq.Lib.Run

/-! # Base64

`encode_base64` of the WebSocket handshake moves its input through a register of 32 bits
and stores a character as soon as there are six bits for it, each after a look at the
capacity, so `int` is wide enough for `io`. Shifts and masks are written as products,
quotients and remainders.
-/

namespace Zmq.Base64

open Lib

def base64encTab : List UInt8 :=
  "ABCDEFGHIJKLMNOPQRSTUVWXYZabcdefghijklmnopqrstuvwxyz0123456789+/".toList.map (.ofNat ·.toNat)

/-- `base64enc_tab[n & 63]` -/
def char (n : Nat) : UInt8 := base64encTab.getD (n % 64) 0

/-- Store a character at `io`, unless that is at the capacity. What was stored so far stays. -/
def put (outLen : Nat) (c : UInt8) (out : List UInt8) : Except (List UInt8) (List UInt8) :=
  if outLen ≤ out.length then .error out else .ok (out ++ [c])

/-- The variables of the loop; `out` is what `out_` has in front of `io`. -/
structure Coding where
  v : Nat := 0
  rem : Nat := 0
  out : List UInt8 := []

/-- The inner loop: characters as long as there are six bits. -/
def store (outLen v : Nat) : Nat → List UInt8 → Except (List UInt8) Coding
  | rem + 6, out => do
    let out ← put outLen (char (v / 2 ^ rem)) out
    store outLen v rem out
  | rem, out => .ok ⟨v, rem, out⟩

def step (outLen : Nat) (s : Coding) (ch : UInt8) : Except (List UInt8) Coding :=
  store outLen ((s.v * 256 + ch.toNat) % 2 ^ 32) (s.rem + 8) s.out

def last (outLen : Nat) (s : Coding) : Except (List UInt8) (List UInt8) :=
  if s.rem = 0 then .ok s.out
  else put outLen (char (s.v * 2 ^ (6 - s.rem) % 2 ^ 32)) s.out

/-- Fill up the last four characters, which takes three steps at most. -/
def pad (outLen : Nat) : Nat → List UInt8 → Except (List UInt8) (List UInt8)
  | 0, out => .ok out
  | n + 1, out =>
    if out.length % 4 = 0 then .ok out
    else do
      let out ← put outLen 61 out
      pad outLen n out

def finish (outLen : Nat) (s : Coding) : Except (List UInt8) (List UInt8) := do
  let out ← last outLen s
  let out ← pad outLen 3 out
  put outLen 0 out

/-- What is returned, and what stands in `out_` then. -/
def encodeBase64 (input : List UInt8) (outLen : Nat) : Int × List UInt8 :=
  match input.foldlM (step outLen) {} >>= finish outLen with
  | .error out => (-1, out)
  | .ok out => (out.length - 1, out)

/-! ## RFC 4648 -/

def alphabet (n : Nat) : UInt8 :=
  .ofNat (if n < 26 then n + 65 else if n < 52 then n + 71 else if n < 62 then n - 4
    else if n = 62 then 43 else 47)

def quantum (a b c : UInt8) : List UInt8 :=
  [262144, 4096, 64, 1].map fun d =>
    alphabet ((a.toNat * 65536 + b.toNat * 256 + c.toNat) / d % 64)

def base64 : List UInt8 → List UInt8
  | a :: b :: c :: rest => quantum a b c ++ base64 rest
  | [a, b] => (quantum a b 0).take 3 ++ [61]
  | [a] => (quantum a 0 0).take 2 ++ [61, 61]
  | [] => []

/-! ## The encoder -/

variable {outLen v : Nat} {out text : List UInt8}

def limit (outLen : Nat) (text : List UInt8) : Except (List UInt8) (List UInt8) :=
  if text.length ≤ outLen then .ok text else .error (text.take outLen)

/-- The program stores `text` behind `out`. -/
def Writes (outLen : Nat) (out text : List UInt8) (x : Except (List UInt8) (List UInt8)) : Prop :=
  out.length ≤ outLen → x = limit outLen (out ++ text)

theorem Writes.put {c : UInt8} {k : List UInt8 → Except (List UInt8) (List UInt8)}
    (next : Writes outLen (out ++ [c]) text (k (out ++ [c]))) :
    Writes outLen out (c :: text) (put outLen c out >>= k) := by
  intro room
  rw [Base64.put]
  split
  · have full : outLen = out.length := by omega
    rw [limit, if_neg (by simp; omega), full, List.take_left]
    rfl
  · rw [ok_bind, next (by simp; omega), List.append_assoc]
    rfl

theorem writes_nul : Writes outLen out [0] (Base64.put outLen 0 out) := by
  rw [← bind_pure (Base64.put outLen 0 out)]
  refine .put fun room => ?_
  simp only [limit, List.append_nil, room, if_true]
  rfl

theorem char_eq {m n : Nat} (same : m % 64 = n % 64) : char m = alphabet (n % 64) := by
  have all : ∀ n < 64, base64encTab.getD n 0 = alphabet n := by decide +kernel
  rw [char, same, all _ (Nat.mod_lt _ (by decide))]

/-- What the register holds beside the last bytes does not matter. -/
theorem quantum_eq (a b c : UInt8) {x y z : Nat} (first : x = (v * 256 + a.toNat) % 2 ^ 32)
    (second : y = (x * 256 + b.toNat) % 2 ^ 32) (third : z = (y * 256 + c.toNat) % 2 ^ 32) :
    quantum a b c = [char (x / 2 ^ 2), char (y / 2 ^ 4), char (z / 2 ^ 6), char (z / 2 ^ 0)] := by
  have := a.toNat_lt
  have := b.toNat_lt
  have := c.toNat_lt
  simp only [quantum, List.map_cons, List.map_nil, List.cons.injEq, and_true]
  refine ⟨(char_eq ?_).symm, (char_eq ?_).symm, (char_eq ?_).symm, (char_eq ?_).symm⟩ <;> omega

theorem writes_end (n : Nat) {m : Nat} (whole : (out.length + n) % 4 = 0) (few : n < 4)
    (le : n ≤ m) : Writes outLen out (List.replicate n 61 ++ [0])
      (pad outLen m out >>= Base64.put outLen 0) := by
  induction n generalizing out m with
  | zero =>
    have done : pad outLen m out = .ok out := by
      cases m with
      | zero => rfl
      | succ m => exact if_pos whole
    rw [done, ok_bind]
    exact writes_nul
  | succ n ih =>
    obtain ⟨m, rfl⟩ : ∃ k, m = k + 1 := ⟨m - 1, by omega⟩
    rw [pad, if_neg (by omega), bind_assoc]
    exact .put (ih (by simp; omega) (by omega) (by omega))

theorem writes_input (input : List UInt8) (v : Nat) (whole : out.length % 4 = 0) :
    Writes outLen out (base64 input ++ [0])
      (input.foldlM (step outLen) ⟨v, 0, out⟩ >>= finish outLen) := by
  induction input using base64.induct generalizing v out with
  | case1 a b c rest ih =>
    rw [base64, quantum_eq (v := v) a b c rfl rfl rfl]
    simp only [List.foldlM_cons, step, store, bind_assoc, ok_bind]
    exact .put (.put (.put (.put (ih _ (by simp; omega)))))
  | case2 a b =>
    have fill (y : Nat) : char ((y * 256 + UInt8.toNat 0) % 2 ^ 32 / 2 ^ 6) =
        char (y * 2 ^ (6 - 4) % 2 ^ 32) := (char_eq (by simp; omega)).trans (char_eq rfl).symm
    rw [base64, quantum_eq (v := v) a b 0 rfl rfl rfl, fill]
    simp only [List.foldlM_cons, List.foldlM_nil, step, store, bind_assoc, ok_bind, pure_bind]
    exact .put (.put (.put (writes_end 1 (by simp; omega) (by decide) (by decide))))
  | case3 a =>
    have fill (x : Nat) : char ((x * 256 + UInt8.toNat 0) % 2 ^ 32 / 2 ^ 4) =
        char (x * 2 ^ (6 - 2) % 2 ^ 32) := (char_eq (by simp; omega)).trans (char_eq rfl).symm
    rw [base64, quantum_eq (v := v) a 0 0 rfl rfl rfl, fill]
    simp only [List.foldlM_cons, List.foldlM_nil, step, store, bind_assoc, ok_bind, pure_bind]
    exact .put (.put (writes_end 2 (by simp; omega) (by decide) (by decide)))
  | case4 => exact writes_end 0 whole (by decide) (by decide)

/-- The encoding and its NUL are stored as far as the capacity goes, and the length is returned if
    that is far enough. -/
theorem encode_base64_bounded (input : List UInt8) (outLen : Nat) :
    encodeBase64 input outLen =
      if (base64 input).length + 1 ≤ outLen then
        (((base64 input).length : Int), base64 input ++ [0])
      else (-1, (base64 input ++ [0]).take outLen) := by
  have run : Writes outLen [] (base64 input ++ [0]) _ := writes_input input 0 rfl
  rw [encodeBase64, run (Nat.zero_le _), limit, List.nil_append, List.length_append]
  by_cases room : (base64 input).length + 1 ≤ outLen
  · simp [room]
  · simp [room]

end Zmq.Base64
