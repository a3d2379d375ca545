import Mathlib

/-! # Reconnection back-off

`stream_connecter_base_t` waits between two attempts to connect for the current
interval and a random share of the configured one. The arithmetic is that of
`int`: an operation that leaves the type gives `none`.
-/

namespace Zmq.Connecter

def intMax : Int := 2147483647

def int (n : Int) : Option Int :=
  if -intMax - 1 ≤ n ∧ n ≤ intMax then some n else none

/-- The two options of `options_t` that a connecter reads, both of type `int`. -/
structure Options where
  reconnectIvl : Int
  reconnectIvlMax : Int
  ivl_le : reconnectIvl ≤ intMax
  max_le : reconnectIvlMax ≤ intMax

variable (o : Options)

/-- The jitter of one call, `generate_random () % options.reconnect_ivl`. The
    caller has tested that the divisor is positive. -/
def randomJitter (random : UInt32) : Int := (random.toNat : Int) % o.reconnectIvl

def interval (current jitter : Int) : Option Int := do
  let room ← int (intMax - jitter)
  if current < room then int (current + jitter) else some intMax

def nextIvl (current : Int) : Option Int :=
  if 0 < o.reconnectIvlMax ∧ o.reconnectIvl < o.reconnectIvlMax then
    if current < intMax / 2 then (int (current * 2)).map (min · o.reconnectIvlMax)
    else some o.reconnectIvlMax
  else some current

def getNewReconnectIvl (current : Int) (random : UInt32) : Option (Int × Int) := do
  let ivl ← interval current (randomJitter o random)
  let next ← nextIvl o current
  some (ivl, next)

/-- Successive calls: the current interval each one finds and the one it returns. -/
def reconnectIvls (current : Int) : List UInt32 → Option (List (Int × Int))
  | [] => some []
  | random :: rest => do
    let (ivl, next) ← getNewReconnectIvl o current random
    let later ← reconnectIvls next rest
    some ((current, ivl) :: later)

/-- The current interval after `n` calls. -/
def baseIvl : Nat → Int
  | 0 => o.reconnectIvl
  | n + 1 =>
    if o.reconnectIvl < o.reconnectIvlMax then
      if baseIvl n < intMax / 2 then min (baseIvl n * 2) o.reconnectIvlMax
      else o.reconnectIvlMax
    else baseIvl n

theorem int_of_le {n : Int} (low : 0 ≤ n) (high : n ≤ intMax) : int n = some n :=
  if_pos ⟨by simp only [intMax]; omega, high⟩

theorem interval_of_le {current jitter : Int} (low : 0 ≤ current) (nonneg : 0 ≤ jitter)
    (fits : jitter ≤ intMax) :
    interval current jitter = some (min (current + jitter) intMax) := by
  simp only [interval, int_of_le (n := intMax - jitter) (by omega) (by omega),
    Option.bind_eq_bind, Option.bind_some]
  split
  · rw [int_of_le (by omega) (by omega), min_eq_left (by omega)]
  · rw [min_eq_right (by omega)]

variable {o} (positive : 0 < o.reconnectIvl)

include positive

theorem baseIvl_bounds (n : Nat) : o.reconnectIvl ≤ baseIvl o n ∧ baseIvl o n ≤ intMax := by
  induction n with
  | zero => exact ⟨le_rfl, o.ivl_le⟩
  | succ n ih =>
    have := o.max_le
    simp only [baseIvl]
    split_ifs <;> omega

theorem nextIvl_base (n : Nat) : nextIvl o (baseIvl o n) = some (baseIvl o (n + 1)) := by
  have base := baseIvl_bounds positive n
  by_cases backoff : o.reconnectIvl < o.reconnectIvlMax
  · rw [nextIvl, baseIvl, if_pos ⟨by omega, backoff⟩, if_pos backoff]
    split
    · rw [int_of_le (by omega) (by omega)]
      rfl
    · rfl
  · rw [nextIvl, baseIvl, if_neg (fun h => backoff h.2), if_neg backoff]

theorem randomJitter_bounds (random : UInt32) :
    0 ≤ randomJitter o random ∧ randomJitter o random < o.reconnectIvl :=
  ⟨Int.emod_nonneg _ (by omega), Int.emod_lt_of_pos _ positive⟩

theorem reconnectIvls_base (randoms : List UInt32) (n : Nat) :
    reconnectIvls o (baseIvl o n) randoms = some (randoms.mapIdx fun k random =>
      (baseIvl o (n + k), min (baseIvl o (n + k) + randomJitter o random) intMax)) := by
  induction randoms generalizing n with
  | nil => rfl
  | cons random rest ih =>
    have jitter := randomJitter_bounds positive random
    have base := baseIvl_bounds positive n
    have fits := o.ivl_le
    simp [reconnectIvls, getNewReconnectIvl, nextIvl_base positive, ih,
      interval_of_le (by omega : 0 ≤ baseIvl o n) jitter.1 (by omega),
      List.mapIdx_cons, Nat.add_assoc, Nat.add_comm 1]

/-- The doubling is exact, but for the one step from `1073741823` to the largest
    `int`, where the test for overflow is too strict by one. -/
theorem baseIvl_doubles (backoff : o.reconnectIvl < o.reconnectIvlMax) (n : Nat) :
    baseIvl o n = min (o.reconnectIvl * 2 ^ n) o.reconnectIvlMax ∨
      n = 1 ∧ o.reconnectIvl = 1073741823 ∧ o.reconnectIvlMax = intMax ∧
        intMax = o.reconnectIvl * 2 ^ n + 1 ∧ baseIvl o n = intMax := by
  induction n with
  | zero => simp [baseIvl, backoff.le]
  | succ n ih =>
    have fits := o.max_le
    have twice : o.reconnectIvl * 2 ^ (n + 1) = o.reconnectIvl * 2 ^ n * 2 := by ring
    -- only the configured interval itself can be odd
    have even : n = 0 ∧ o.reconnectIvl * 2 ^ n = o.reconnectIvl ∨
        o.reconnectIvl * 2 ^ n % 2 = 0 := by
      cases n with
      | zero => exact .inl ⟨rfl, by simp⟩
      | succ k => exact .inr (by rw [pow_succ, ← mul_assoc]; omega)
    have scaled : 0 < o.reconnectIvl * 2 ^ n := by positivity
    have int : intMax = 2147483647 := rfl
    rw [baseIvl, if_pos backoff, twice]
    split <;> omega

omit positive in
/-- The jitter does not carry the interval of the `n`-th call over the maximum, or no `int` is
    larger; and it is not the call for which the test for overflow is too strict. -/
def Within (o : Options) (n : Nat) (random : UInt32) : Prop :=
  (min (o.reconnectIvl * 2 ^ n) o.reconnectIvlMax + (random.toNat : Int) % o.reconnectIvl ≤
      o.reconnectIvlMax ∨ o.reconnectIvlMax = intMax) ∧
    ¬ (n = 1 ∧ o.reconnectIvl = 1073741823 ∧ o.reconnectIvlMax = intMax)

/-- Every call returns without overflow a positive interval that is at least the
    configured one. With a larger maximum, the current interval doubles until it
    is reached, and the interval returned does not exceed it, exactly if the random
    value of the call allows for it. -/
theorem reconnect_ivl_bounds (randoms : List UInt32) :
    ∃ calls, reconnectIvls o o.reconnectIvl randoms = some calls ∧
      calls.length = randoms.length ∧
      ∀ n current ivl random, calls[n]? = some (current, ivl) → randoms[n]? = some random →
        0 < ivl ∧ o.reconnectIvl ≤ ivl ∧
        (o.reconnectIvl < o.reconnectIvlMax →
          (current = min (o.reconnectIvl * 2 ^ n) o.reconnectIvlMax ∧ ivl ≤ o.reconnectIvlMax ↔
            Within o n random)) := by
  refine ⟨_, reconnectIvls_base positive randoms 0, by simp, ?_⟩
  intro n current ivl random called drawn
  simp only [List.getElem?_mapIdx, drawn, Nat.zero_add, Option.map_some, Option.some.injEq,
    Prod.mk.injEq] at called
  obtain ⟨rfl, rfl⟩ := called
  have base := baseIvl_bounds positive n
  have jitter := randomJitter_bounds positive random
  have fits := o.max_le
  refine ⟨by omega, by omega, fun backoff => ?_⟩
  have exact_ : baseIvl o n = min (o.reconnectIvl * 2 ^ n) o.reconnectIvlMax ↔
      ¬ (n = 1 ∧ o.reconnectIvl = 1073741823 ∧ o.reconnectIvlMax = intMax) := by
    constructor
    · rintro same ⟨rfl, ivl, max⟩
      simp [baseIvl, ivl, max, intMax] at same
    · intro other
      exact (baseIvl_doubles positive backoff n).resolve_right
        fun corner => other ⟨corner.1, corner.2.1, corner.2.2.1⟩
  rw [Within, and_comm, ← exact_]
  refine and_congr_left fun same => ?_
  rw [← same]
  change _ ↔ _ + randomJitter o random ≤ _ ∨ _
  omega

omit positive

theorem reconnect_ivl_bounds_twice :
    ∃ calls, reconnectIvls ⟨100, 250, by decide, by decide⟩ 100 [7, 39] = some calls ∧
      ∀ current ivl, calls[1]? = some (current, ivl) → current = 200 ∧ ivl ≤ 250 := by
  obtain ⟨calls, made, -, bounds⟩ :=
    reconnect_ivl_bounds (o := ⟨100, 250, by decide, by decide⟩) (by decide) [7, 39]
  refine ⟨calls, made, fun current ivl called => ?_⟩
  exact ((bounds 1 current ivl 39 called rfl).2.2 (by decide)).mpr ⟨.inl (by decide), by decide⟩

/-- With an interval of 100 ms and a maximum of 200 ms, the second wait can last
    for 299 ms. -/
theorem reconnect_ivl_exceeds_max :
    reconnectIvls ⟨100, 200, by decide, by decide⟩ 100 [0, 99] =
      some [(100, 100), (200, 299)] := by
  decide

end Zmq.Connecter
