import Mathlib

/-! # Credit-based flow control

A writer may run ahead of what it knows of its reader by a limit. The reader
reports its count whenever the count is due; reports travel in a FIFO. A writer
that has hit the limit sleeps until a report comes.

Two questions are answered here for any limit and any set of due counts. The
writer never runs ahead of the reader by more than the limit. And when the reader
has caught up and no report is in flight, the writer is awake and below its
limit, provided the reader's next due count comes early enough. The writer
compares counts modulo some number only; nothing depends on which.
-/

namespace Zmq.Lib

/-- Counts are exact here; what the parties hold are their residues. -/
structure Credit where
  written : Nat
  taken : Nat
  /-- The last report that has reached the writer. -/
  known : Nat
  /-- The reports in flight, oldest first. -/
  reports : List Nat
  awake : Bool

namespace Credit

def last (c : Credit) : Nat := c.reports.getLast?.getD c.known

theorem last_of_nil {c : Credit} (none_left : c.reports = []) : c.last = c.known := by
  simp [last, none_left]

/-- The reader reports what it has taken, and takes what was written. -/
structure Ordered (c : Credit) : Prop where
  behind : ∀ n ∈ c.known :: c.reports, n ≤ c.taken
  le : c.taken ≤ c.written

theorem last_mem (c : Credit) : c.last ∈ c.known :: c.reports := by
  unfold last
  cases here : c.reports.getLast? with
  | none => simp
  | some n => exact List.mem_cons_of_mem _ (List.mem_of_getLast? here)

/-- What one of the parties can do. The writer sees `written - known` modulo `M`. -/
inductive Step (M : Nat) (limit : Option Nat) (due : Nat → Prop) : Credit → Credit → Prop where
  | stay (c : Credit) : Step M limit due c c
  | write (c : Credit) : c.awake = true →
      (∀ H, limit = some H → (c.written - c.known) % M < H) →
      Step M limit due c { c with written := c.written + 1 }
  | sleep (c : Credit) (H : Nat) : limit = some H → H ≤ (c.written - c.known) % M →
      Step M limit due c { c with awake := false }
  | take (c : Credit) (n : Nat) : c.taken ≤ n → n ≤ c.taken + 1 → n ≤ c.written → ¬ due n →
      Step M limit due c { c with taken := n }
  | report (c : Credit) (n : Nat) : c.taken ≤ n → n ≤ c.taken + 1 → n ≤ c.written → due n →
      Step M limit due c { c with taken := n, reports := c.reports ++ [n] }
  | deliver (c : Credit) (n : Nat) (later : List Nat) : c.reports = n :: later →
      Step M limit due c { c with known := n, reports := later, awake := true }

variable {M H n : Nat} {limit : Option Nat} {due : Nat → Prop} {c c' : Credit}

/-! ## The limit is kept -/

/-- Reports come in the order of the counts, and the writer is at most the limit
    ahead of the oldest it relies on. -/
structure Bounded (H : Nat) (c : Credit) : Prop where
  sorted : (c.known :: c.reports).Pairwise (· ≤ ·)
  bound : c.written ≤ c.known + H

theorem Step.bounded (step : Step M (some H) due c c') (small : H < M) (ordered : c.Ordered)
    (bounded : c.Bounded H) : c'.Bounded H := by
  obtain ⟨behind, -⟩ := ordered
  obtain ⟨sorted, bound⟩ := bounded
  have snoc {n : Nat} (above : c.taken ≤ n) : (c.known :: (c.reports ++ [n])).Pairwise (· ≤ ·) := by
    refine List.pairwise_append.mpr ⟨sorted, by simp, fun k member m same => ?_⟩
    rw [List.mem_singleton.mp same]
    exact Nat.le_trans (behind k member) above
  cases step with
  | stay | sleep | take => exact ⟨sorted, bound⟩
  | write _ room =>
    refine ⟨sorted, ?_⟩
    have exact_room := room H rfl
    rw [Nat.mod_eq_of_lt (by omega)] at exact_room
    change c.written + 1 ≤ c.known + H
    omega
  | report n above => exact ⟨snoc above, bound⟩
  | deliver n later here =>
    rw [here] at sorted
    obtain ⟨first, rest⟩ := List.pairwise_cons.mp sorted
    have := first n List.mem_cons_self
    refine ⟨rest, ?_⟩
    change c.written ≤ n + H
    omega

theorem Bounded.backlog (bounded : c.Bounded H) (ordered : c.Ordered) :
    c.written ≤ c.taken + H := by
  have := ordered.behind c.known List.mem_cons_self
  have := bounded.bound
  omega

/-! ## The writer is woken -/

/-- The reader will report before the writer has to give up: at a count it can
    reach with what is written, or with what the writer may still add. -/
def Fed (limit : Option Nat) (due : Nat → Prop) (c : Credit) : Prop :=
  ∀ H, limit = some H → ∃ d, c.taken < d ∧ d ≤ max c.written (c.last + H) ∧ due d

/-- A sleeping writer will be woken by what is already there. -/
def Woken (due : Nat → Prop) (c : Credit) : Prop :=
  c.awake = true ∨ c.reports ≠ [] ∨ ∃ d, c.taken < d ∧ d ≤ c.written ∧ due d

/-- The next due count is never further than the limit. -/
def Gap (limit : Option Nat) (due : Nat → Prop) : Prop :=
  ∀ H, limit = some H → ∀ n, ∃ d, n < d ∧ d ≤ n + H ∧ due d

theorem Gap.fed (gap : Gap limit due) (level : c.last = c.taken) : c.Fed limit due := by
  intro H same
  obtain ⟨d, above, near, isDue⟩ := gap H same c.taken
  rw [level]
  exact ⟨d, above, Nat.le_trans near (Nat.le_max_right ..), isDue⟩

theorem Step.fed (step : Step M limit due c c') (gap : Gap limit due) (fed : c.Fed limit due) :
    c'.Fed limit due := by
  intro H same
  obtain ⟨d, ahead, near, isDue⟩ := fed H same
  cases step with
  | stay | sleep => exact ⟨d, ahead, near, isDue⟩
  | write =>
    refine ⟨d, ahead, ?_, isDue⟩
    change d ≤ max (c.written + 1) (c.last + H)
    omega
  | take n above close within notDue =>
    refine ⟨d, ?_, near, isDue⟩
    have : d ≠ n := by
      rintro rfl
      exact notDue isDue
    change n < d
    omega
  | report => exact gap.fed (by simp [last]) H same
  | deliver n later here =>
    refine ⟨d, ahead, ?_, isDue⟩
    have keeps : last { c with known := n, reports := later, awake := true } = c.last := by
      cases later with
      | nil => simp [last, here]
      | cons m rest => simp [last, here, List.getLast?_cons]
    rw [keeps]
    exact near

theorem Ordered.known_le (ordered : c.Ordered) : c.known ≤ c.written :=
  Nat.le_trans (ordered.behind c.known List.mem_cons_self) ordered.le

theorem Step.woken (step : Step M limit due c c') (ordered : c.Ordered) (fed : c.Fed limit due)
    (woken : c.Woken due) : c'.Woken due := by
  cases step with
  | stay => exact woken
  | write awake => exact .inl awake
  | sleep H same full =>
    by_cases pending : c.reports = []
    · -- Nothing is in flight, so the limit counts from the last report.
      obtain ⟨d, ahead, near, isDue⟩ := fed H same
      have := Nat.mod_le (c.written - c.known) M
      have := ordered.known_le
      rw [last_of_nil pending] at near
      refine .inr (.inr ⟨d, ahead, ?_, isDue⟩)
      change d ≤ c.written
      omega
    · exact .inr (.inl pending)
  | take n above close within notDue =>
    rcases woken with awake | pending | ⟨d, ahead, near, isDue⟩
    · exact .inl awake
    · exact .inr (.inl pending)
    · have : d ≠ n := by
        rintro rfl
        exact notDue isDue
      refine .inr (.inr ⟨d, ?_, near, isDue⟩)
      change n < d
      omega
  | report => exact .inr (.inl (by simp))
  | deliver => exact .inl rfl

theorem Step.awake (step : Step M none due c c') (awake : c.awake = true) : c'.awake = true := by
  cases step with
  | stay | write | take | report => exact awake
  | sleep H same => cases same
  | deliver => rfl

theorem ready (ordered : c.Ordered) (fed : c.Fed limit due) (woken : c.Woken due)
    (drained : c.taken = c.written) (quiet : c.reports = []) :
    c.awake = true ∧ ∀ H, limit = some H → (c.written - c.known) % M < H := by
  constructor
  · rcases woken with awake | pending | ⟨d, ahead, near, -⟩
    · exact awake
    · exact absurd quiet pending
    · omega
  · intro H same
    obtain ⟨d, ahead, near, -⟩ := fed H same
    rw [last_of_nil quiet] at near
    have := Nat.mod_le (c.written - c.known) M
    have := ordered.known_le
    omega

/-! ## Residues

The parties hold residues modulo `M`, so a count that was reported stands for all
counts with its residue. The one closest to what was taken can be put in its place. -/

def closest (M taken n : Nat) : Nat := taken - (taken - n) % M

theorem closest_le (M taken n : Nat) : closest M taken n ≤ taken := Nat.sub_le ..

theorem closest_mod {taken : Nat} (le : n ≤ taken) : closest M taken n % M = n % M := by
  have split := Nat.div_add_mod (taken - n) M
  have : closest M taken n = n + M * ((taken - n) / M) := by
    unfold closest
    omega
  rw [this, Nat.add_mul_mod_self_left]

theorem taken_sub_closest {taken : Nat} : taken - closest M taken n = (taken - n) % M := by
  have := Nat.mod_le (taken - n) M
  unfold closest
  omega

def tighten (M : Nat) (c : Credit) : Credit :=
  { c with
    known := closest M c.taken c.known
    reports := c.reports.map (closest M c.taken) }

theorem tighten_last (M : Nat) (c : Credit) : (c.tighten M).last = closest M c.taken c.last := by
  cases here : c.reports.getLast? with
  | none | some => simp [last, tighten]

theorem tighten_behind (M : Nat) (c : Credit) :
    ∀ n ∈ (c.tighten M).known :: (c.tighten M).reports, n ≤ c.taken := by
  intro n member
  obtain ⟨k, -, rfl⟩ := List.mem_map.mp (show n ∈ (c.known :: c.reports).map (closest M c.taken)
    from member)
  exact closest_le ..

end Credit

/-- How far it is from `n` to the next count with a residue that `L` divides. The
    residues wrap to zero, which it divides. -/
def untilDue (M L n : Nat) : Nat := min (L - n % M % L) (M - n % M)

theorem untilDue_le (M L n : Nat) : untilDue M L n ≤ L := by
  unfold untilDue
  omega

section UntilDue

variable {M L : Nat} (wraps : 0 < M) (some_mark : 0 < L) (n : Nat)
include wraps some_mark

theorem untilDue_pos : 0 < untilDue M L n := by
  have := Nat.mod_lt n wraps
  have := Nat.mod_lt (n % M) some_mark
  unfold untilDue
  omega

theorem untilDue_due : (n + untilDue M L n) % M % L = 0 := by
  have lt := Nat.mod_lt n wraps
  have split := Nat.div_add_mod n M
  have below := Nat.div_add_mod (n % M) L
  have rest := Nat.mod_lt (n % M) some_mark
  have unfold_mul : L * (n % M / L + 1) = L * (n % M / L) + L := Nat.mul_succ ..
  unfold untilDue
  by_cases early : L - n % M % L < M - n % M
  · have same : (n + (L - n % M % L)) % M = L * (n % M / L + 1) := by
      rw [show n + (L - n % M % L) = L * (n % M / L + 1) + M * (n / M) by omega,
        Nat.add_mul_mod_self_left, Nat.mod_eq_of_lt (by omega)]
    rw [Nat.min_eq_left (by omega), same]
    exact Nat.mul_mod_right ..
  · have same : (n + (M - n % M)) % M = 0 := by
      rw [show n + (M - n % M) = M * (n / M + 1) by rw [Nat.mul_succ]; omega]
      exact Nat.mul_mod_right ..
    rw [Nat.min_eq_right (by omega), same, Nat.zero_mod]

end UntilDue

end Zmq.Lib
