import Mathlib

/-! # The lock-free pipe `ypipe_t`

Addresses of queue slots are modelled by their index in the list of everything
pushed and not unpushed since the pipe was made; the terminator slot the source
keeps at the back has index `items.length`. Popping moves `front` and forgets
nothing, so the whole stream written so far can be read off a state. The four
pointers `w`, `r`, `f`, `c` are such indices, `none` being the null pointer.

The order of the pointers, and that a sleeping reader has consumed everything
flushed, are part of the type: no operation can build a pipe that breaks them.
-/

namespace Zmq

structure Ypipe (α : Type) where
  /-- `_queue`, from the first slot ever used up to the terminator. -/
  items : List α
  /-- Index of `_queue.front ()`. -/
  front : Nat
  /-- First un-flushed item. -/
  w : Nat
  /-- First un-prefetched item. -/
  r : Option Nat
  /-- First item to be flushed in the future. -/
  f : Nat
  /-- Past the last flushed item, or null while the reader is asleep. -/
  c : Option Nat
  front_le_w : front ≤ w
  w_le_f : w ≤ f
  f_le_back : f ≤ items.length
  awake : ∀ p, c = some p → p = w
  asleep : c = none → front = w
  fetched : ∀ p, r = some p → front ≤ p ∧ p ≤ w

namespace Ypipe

variable {α : Type}

/-- The constructor: one terminator slot, all pointers at it. -/
@[simps -fullyApplied items front w f c]
def new : Ypipe α where
  items := []
  front := 0
  w := 0
  r := some 0
  f := 0
  c := some 0
  front_le_w := Nat.le_refl _
  w_le_f := Nat.le_refl _
  f_le_back := Nat.le_refl _
  awake := by simp
  asleep := by simp
  fetched := by simp

@[simps -fullyApplied items front w f c]
def write (y : Ypipe α) (value : α) (incomplete : Bool) : Ypipe α :=
  { y with
    items := y.items ++ [value]
    f := if incomplete then y.f else y.items.length + 1
    w_le_f := by
      have := y.w_le_f
      have := y.f_le_back
      split <;> omega
    f_le_back := by
      have := y.f_le_back
      simp only [List.length_append, List.length_singleton]
      split <;> omega }

/-- `ypipe_t::unwrite`: the last item if it is not part of a finished group. -/
def unwrite (y : Ypipe α) : Option (α × Ypipe α) :=
  if back : y.f = y.items.length then none
  else
    have nonempty : y.items ≠ [] := by
      intro empty
      have := y.f_le_back
      simp only [empty, List.length_nil] at this back
      omega
    some (y.items.getLast nonempty,
      { y with
        items := y.items.dropLast
        f_le_back := by
          have := y.f_le_back
          simp only [List.length_dropLast]
          omega })

private def publish (y : Ypipe α) : Ypipe α :=
  { y with
    w := y.f
    c := some y.f
    front_le_w := Nat.le_trans y.front_le_w y.w_le_f
    w_le_f := Nat.le_refl _
    awake := by simp
    asleep := by simp
    fetched := fun p same => ⟨(y.fetched p same).1, Nat.le_trans (y.fetched p same).2 y.w_le_f⟩ }

/-- `ypipe_t::flush`. The compare-and-swap fails exactly when `c` is null, and
    then the caller has to wake the reader up. -/
def flush (y : Ypipe α) : Bool × Ypipe α :=
  if y.w = y.f then (true, y)
  else if y.c ≠ some y.w then (false, y.publish)
  else (true, y.publish)

def available (y : Ypipe α) : Bool :=
  match y.r with
  | some p => decide (y.front ≠ p)
  | none => false

/-- `_r = _c.cas (&_queue.front (), NULL)`. -/
private def prefetch (y : Ypipe α) : Ypipe α :=
  { y with
    r := y.c
    c := if y.c = some y.front then none else y.c
    awake := by
      intro p same
      split at same
      · cases same
      · exact y.awake p same
    asleep := by
      intro same
      split at same
      · rename_i here
        exact y.awake y.front here
      · exact y.asleep same
    fetched := by
      intro p same
      have := y.awake p same
      have := y.front_le_w
      omega }

def checkRead (y : Ypipe α) : Bool × Ypipe α :=
  if y.available then (true, y) else (y.prefetch.available, y.prefetch)

theorem available_spec {y : Ypipe α} (h : y.available = true) :
    ∃ p, y.r = some p ∧ y.front < p := by
  unfold available at h
  split at h
  · rename_i p same
    have := (y.fetched p same).1
    exact ⟨p, same, by simp only [decide_eq_true_eq] at h; omega⟩
  · cases h

theorem available_lt {y : Ypipe α} (h : y.available = true) : y.front < y.w := by
  obtain ⟨p, same, lt⟩ := available_spec h
  have := (y.fetched p same).2
  omega

/-- `_queue.pop ()` under a successful `check_read`. -/
private def pop (y : Ypipe α) (h : y.available = true) : Ypipe α :=
  { y with
    front := y.front + 1
    front_le_w := available_lt h
    asleep := by
      intro same
      have := y.asleep same
      have := available_lt h
      omega
    fetched := by
      intro p same
      obtain ⟨q, atQ, lt⟩ := available_spec h
      obtain rfl : q = p := by simpa [atQ] using same
      exact ⟨lt, (y.fetched q atQ).2⟩ }

def read (y : Ypipe α) : Option α × Ypipe α :=
  if ready : y.checkRead.2.available then
    (y.checkRead.2.items[y.checkRead.2.front]?, y.checkRead.2.pop ready)
  else (none, y.checkRead.2)

/-- `ypipe_t::probe`, `none` being a failed assertion that an item is there. -/
def probe (y : Ypipe α) (fn : α → Bool) : Option Bool :=
  if y.checkRead.1 then (y.checkRead.2.items[y.checkRead.2.front]?).map fn else none

section

variable (y : Ypipe α)
include y

@[simp] theorem flush_items : y.flush.2.items = y.items := by
  unfold flush; split <;> [rfl; split <;> rfl]
@[simp] theorem flush_front : y.flush.2.front = y.front := by
  unfold flush; split <;> [rfl; split <;> rfl]
@[simp] theorem flush_f : y.flush.2.f = y.f := by
  unfold flush; split <;> [rfl; split <;> rfl]
@[simp] theorem flush_w : y.flush.2.w = y.f := by
  unfold flush; split <;> [assumption; split <;> rfl]

/-- `flush` asks for a wake-up exactly when it hands items to a sleeping reader. -/
theorem flush_false_iff : y.flush.1 = false ↔ y.w ≠ y.f ∧ y.c = none := by
  unfold flush
  by_cases same : y.w = y.f
  · simp [same]
  · cases at_c : y.c with
    | none => simp [same]
    | some p =>
      have := y.awake p at_c
      simp [same, this]

theorem flush_c : y.flush.2.c = if y.w = y.f then y.c else some y.f := by
  unfold flush
  split
  · rfl
  · split <;> rfl

@[simp] theorem checkRead_items : y.checkRead.2.items = y.items := by
  unfold checkRead; split <;> rfl
@[simp] theorem checkRead_front : y.checkRead.2.front = y.front := by
  unfold checkRead; split <;> rfl
@[simp] theorem checkRead_w : y.checkRead.2.w = y.w := by
  unfold checkRead; split <;> rfl
@[simp] theorem checkRead_f : y.checkRead.2.f = y.f := by
  unfold checkRead; split <;> rfl

end

theorem checkRead_of_lt {y : Ypipe α} (some_left : y.front < y.w) :
    y.checkRead.1 = true ∧ y.checkRead.2.available = true ∧ y.checkRead.2.c = y.c := by
  have at_c : y.c = some y.w := by
    cases here : y.c with
    | none => have := y.asleep here; omega
    | some p => rw [y.awake p here]
  have other : ¬ y.w = y.front := by omega
  unfold checkRead
  split
  · rename_i ready
    exact ⟨rfl, ready, rfl⟩
  · have ready : y.prefetch.available = true := by
      simp [available, prefetch, at_c]
      omega
    exact ⟨ready, ready, by simp [prefetch, at_c, other]⟩

theorem checkRead_of_eq {y : Ypipe α} (none_left : y.front = y.w) :
    y.checkRead.1 = false ∧ y.checkRead.2.available = false ∧ y.checkRead.2.c = none := by
  have idle : y.available = false := by
    by_contra ready
    have := available_lt (by simpa using ready)
    omega
  have idle' : y.prefetch.available = false := by
    cases here : y.c with
    | none => simp [available, prefetch, here]
    | some p =>
      have := y.awake p here
      simp [available, prefetch, here, this, none_left]
  have null : y.prefetch.c = none := by
    cases here : y.c with
    | none => simp [prefetch, here]
    | some p =>
      have := y.awake p here
      simp [prefetch, here, this, none_left]
  simp [checkRead, idle, idle', null]

variable (y : Ypipe α)

theorem checkRead_fst : y.checkRead.1 = decide (y.front < y.w) := by
  have := y.front_le_w
  by_cases left : y.front < y.w
  · simp [(checkRead_of_lt left).1, left]
  · simp [(checkRead_of_eq (show y.front = y.w by omega)).1, left]

@[simp] theorem read_items : y.read.2.items = y.items := by
  unfold read; split <;> [exact checkRead_items y; exact checkRead_items y]
@[simp] theorem read_w : y.read.2.w = y.w := by
  unfold read; split <;> [exact checkRead_w y; exact checkRead_w y]
@[simp] theorem read_f : y.read.2.f = y.f := by
  unfold read; split <;> [exact checkRead_f y; exact checkRead_f y]

theorem lt_length {y : Ypipe α} (some_left : y.front < y.w) : y.front < y.items.length :=
  Nat.lt_of_lt_of_le some_left (Nat.le_trans y.w_le_f y.f_le_back)

theorem read_of_lt {y : Ypipe α} (some_left : y.front < y.w) :
    y.read.1 = some (y.items.get ⟨y.front, lt_length some_left⟩) ∧
      y.read.2.front = y.front + 1 ∧ y.read.2.c = y.c := by
  obtain ⟨-, ready, same_c⟩ := checkRead_of_lt some_left
  unfold read
  simp only [ready, checkRead_items, checkRead_front]
  exact ⟨List.getElem?_eq_getElem _, by simp [pop], by simpa [pop] using same_c⟩

theorem read_of_eq {y : Ypipe α} (none_left : y.front = y.w) :
    y.read.1 = none ∧ y.read.2.front = y.front ∧ y.read.2.c = none := by
  obtain ⟨-, idle, null⟩ := checkRead_of_eq none_left
  unfold read
  simp [idle, null]

/-- The flushed items the reader has not consumed yet. -/
def unread : List α := (y.items.take y.w).drop y.front

theorem unread_of_eq {y : Ypipe α} (none_left : y.front = y.w) : y.unread = [] := by
  exact List.drop_eq_nil_of_le (by simp only [List.length_take]; omega)

theorem unread_of_lt {y : Ypipe α} (some_left : y.front < y.w) :
    y.unread = y.items.get ⟨y.front, lt_length some_left⟩ :: y.read.2.unread := by
  have inside : y.front < (y.items.take y.w).length := by
    have := lt_length some_left
    simp only [List.length_take]
    omega
  simp only [unread, (read_of_lt some_left).2.1]
  rw [List.drop_eq_getElem_cons inside]
  simp

theorem unread_length : y.unread.length = y.w - y.front := by
  have := y.w_le_f
  have := y.f_le_back
  simp only [unread, List.length_drop, List.length_take]
  omega

theorem take_front {y : Ypipe α} {got rest : List α} (split : y.unread = got ++ rest) :
    y.items.take (y.front + got.length) = y.items.take y.front ++ got := by
  have := y.front_le_w
  have length := y.unread_length
  rw [split, List.length_append] at length
  have visible : y.items.take (y.front + got.length) =
      (y.items.take y.w).take (y.front + got.length) := by
    rw [List.take_take, Nat.min_eq_left (by omega)]
  rw [visible, List.take_add, List.take_take, Nat.min_eq_left (by omega)]
  change _ ++ y.unread.take _ = _
  rw [split, List.take_left]

theorem take_front_write (v : α) (inc : Bool) :
    (y.write v inc).items.take (y.write v inc).front = y.items.take y.front := by
  have := y.front_le_w
  have := y.w_le_f
  have := y.f_le_back
  rw [write_items, write_front, List.take_append_of_le_length (by omega)]

section

variable {y y' : Ypipe α}

theorem take_front_cut (items : y'.items = y.items.take y.f) (front : y'.front = y.front) :
    y'.items.take y'.front = y.items.take y.front := by
  have := y.front_le_w
  have := y.w_le_f
  rw [items, front, List.take_take, Nat.min_eq_left (by omega)]

theorem take_front_dry (items : y'.items = y.items) (front : y'.front = y.w) :
    y'.items.take y'.front = y.items.take y.front ++ y.unread := by
  have := y.front_le_w
  have position : y'.front = y.front + y.unread.length := by
    rw [front, unread_length]
    omega
  rw [items, position, take_front (List.append_nil _).symm]

theorem take_front_takes {skipped : List α} {v : α} (items : y'.items = y.items)
    (split : y.unread = skipped ++ v :: y'.unread) (front : y'.front = y.front + skipped.length + 1) :
    y'.items.take y'.front = y.items.take y.front ++ (skipped ++ [v]) := by
  have parts : y.unread = (skipped ++ [v]) ++ y'.unread := by simpa using split
  have position : y'.front = y.front + (skipped ++ [v]).length := by
    rw [front, List.length_append, List.length_singleton, Nat.add_assoc]
  rw [items, position, take_front parts]

end

@[simp] theorem write_unread (v : α) (inc : Bool) : (y.write v inc).unread = y.unread := by
  have := y.w_le_f
  have := y.f_le_back
  simp only [unread, write_items, write_w, write_front]
  rw [List.take_append_of_le_length (by omega)]

theorem flush_unread : y.flush.2.unread = (y.items.take y.f).drop y.front := by
  simp [unread]

theorem mem_flush_unread {y : Ypipe α} {m : α} (member : m ∈ y.unread) : m ∈ y.flush.2.unread := by
  rw [flush_unread]
  have sub : (y.items.take y.w).Sublist (y.items.take y.f) :=
    (List.take_prefix_take_left y.w_le_f).sublist
  exact (sub.drop y.front).subset member

theorem mem_flush_write (v : α) : v ∈ (y.write v false).flush.2.unread := by
  have := y.front_le_w
  have := y.w_le_f
  have := y.f_le_back
  rw [flush_unread]
  simp only [write_items, write_front]
  rw [List.take_of_length_le (by simp), List.drop_append_of_le_length (by omega)]
  simp

theorem unwrite_of_eq {y : Ypipe α} (finished : y.f = y.items.length) : y.unwrite = none := by
  simp [unwrite, finished]

theorem unwrite_of_lt {y : Ypipe α} (open_group : y.f < y.items.length) :
    ∃ value y', y.unwrite = some (value, y') ∧ y.items = y'.items ++ [value] ∧
      y'.front = y.front ∧ y'.w = y.w ∧ y'.f = y.f ∧ y'.c = y.c := by
  have other : ¬ y.f = y.items.length := by omega
  have nonempty : y.items ≠ [] := by
    intro empty
    simp [empty] at open_group
  refine ⟨y.items.getLast nonempty, { y with items := y.items.dropLast, f_le_back := ?_ },
    ?_, ?_, rfl, rfl, rfl, rfl⟩
  · simp only [List.length_dropLast]
    omega
  · simp only [unwrite, other, dite_false]
  · exact (List.dropLast_append_getLast nonempty).symm

end Ypipe

end Zmq
