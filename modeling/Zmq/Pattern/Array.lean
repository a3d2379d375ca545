import Zmq.Pipe.Basic

/-! # Arrays of pipes

`array_t` stores in every item its position, so that an item can be found and removed
at once. An item is in an array at most once; the source relies on it and so does the
type. An access beyond the end, which the source does not check, is a fault.
-/

namespace Zmq

open Lib Function

/-- `array_t`. `index` is what `get_array_index` returns; it is right for every item
    that is in the array. -/
structure ArrayT (ι : Type) where
  items : List ι
  index : ι → Nat
  indexed : ∀ i p, items[i]? = some p → index p = i

namespace ArrayT

variable {ι : Type}

def empty : ArrayT ι where
  items := []
  index _ := 0
  indexed := by simp

variable {i j : Nat}

variable (a : ArrayT ι)

theorem inj {p : ι} (left : a.items[i]? = some p) (right : a.items[j]? = some p) : i = j := by
  rw [← a.indexed i p left, a.indexed j p right]

theorem at_index {p : ι} (member : p ∈ a.items) : a.items[a.index p]? = some p := by
  obtain ⟨i, here⟩ := List.mem_iff_getElem?.mp member
  rwa [a.indexed i p here]

theorem index_lt {p : ι} (member : p ∈ a.items) : a.index p < a.items.length :=
  (List.getElem?_eq_some_iff.mp (a.at_index member)).1

theorem getElem?_swap {items : List ι} {p q : ι} (first : items[i]? = some p)
    (second : items[j]? = some q) (k : Nat) :
    ((items.set i q).set j p)[k]? = if k = j then some p else if k = i then some q else items[k]? := by
  have left := (List.getElem?_eq_some_iff.mp first).1
  have right := (List.getElem?_eq_some_iff.mp second).1
  simp only [List.getElem?_set, List.length_set, left, right, if_true, eq_comm (b := k)]

theorem getElem?_erase {items : List ι} (here : i < items.length) (last : ι) (k : Nat) :
    (items.set i last).dropLast[k]? =
      if k + 1 < items.length then if k = i then some last else items[k]? else none := by
  simp only [List.getElem?_dropLast, List.length_set, List.getElem?_set, here, if_true,
    eq_comm (b := k), Nat.lt_sub_iff_add_lt]

variable [DecidableEq ι]

def pushBack (p : ι) (new : p ∉ a.items) : ArrayT ι where
  items := a.items ++ [p]
  index := update a.index p a.items.length
  indexed := by
    intro i q found
    rw [List.getElem?_append] at found
    split at found
    · have member := List.mem_of_getElem? found
      rw [update_of_ne (by rintro rfl; exact new member)]
      exact a.indexed i q found
    · rw [List.getElem?_singleton] at found
      split at found
      · cases found
        rw [update_self]
        omega
      · cases found

/-- `array_t::swap`, for two items at their places. -/
def exchange (i j : Nat) (p q : ι) (first : a.items[i]? = some p)
    (second : a.items[j]? = some q) : ArrayT ι where
  items := (a.items.set i q).set j p
  index := update (update a.index p j) q i
  indexed := by
    intro k r found
    rw [getElem?_swap first second] at found
    split at found
    · cases found
      by_cases same : p = q
      · subst same
        rw [update_self, a.inj first second]
        omega
      · rw [update_of_ne same, update_self]
        omega
    · split at found
      · cases found
        rw [update_self]
        omega
      · have other : r ≠ p := by
          rintro rfl
          exact absurd (a.inj found first) (by assumption)
        have another : r ≠ q := by
          rintro rfl
          exact absurd (a.inj found second) (by assumption)
        rw [update_of_ne another, update_of_ne other, a.indexed k r found]

def swap (index1 index2 : Nat) : Except Fault (ArrayT ι) :=
  match first : a.items[index1]?, second : a.items[index2]? with
  | some p, some q => .ok (a.exchange index1 index2 p q first second)
  | _, _ => .error .outOfBounds

variable {a b : ArrayT ι}

theorem swap_ok (swapped : a.swap i j = .ok b) :
    ∃ p q, a.items[i]? = some p ∧ a.items[j]? = some q ∧
      ∀ k, b.items[k]? = if k = j then some p else if k = i then some q else a.items[k]? := by
  unfold swap at swapped
  split at swapped
  · rename_i p q first second
    cases swapped
    exact ⟨p, q, first, second, getElem?_swap first second⟩
  · cases swapped

theorem swap_total (a : ArrayT ι) (first : i < a.items.length)
    (second : j < a.items.length) : ∃ b, a.swap i j = .ok b := by
  unfold swap
  split
  · exact ⟨_, rfl⟩
  · rename_i neither
    exact absurd (List.getElem?_eq_getElem second) (neither _ _ (List.getElem?_eq_getElem first))

theorem getElem?_of_swap {k : Nat} (swapped : a.swap i j = .ok b)
    (first : k ≠ i) (second : k ≠ j) : b.items[k]? = a.items[k]? := by
  obtain ⟨_, _, _, _, after⟩ := swap_ok swapped
  rw [after, if_neg second, if_neg first]

/-- `array_t::erase`, for a position. The last item takes its place. -/
def eraseAt (a : ArrayT ι) (i : Nat) (last : ι) (here : i < a.items.length)
    (back : a.items.getLast? = some last) : ArrayT ι where
  items := (a.items.set i last).dropLast
  index := update a.index last i
  indexed := by
    intro k r found
    rw [getElem?_erase here] at found
    split at found
    · split at found
      · cases found
        rw [update_self]
        omega
      · have other : r ≠ last := by
          rintro rfl
          rw [List.getLast?_eq_getElem?] at back
          have := a.inj found back
          omega
        rw [update_of_ne other, a.indexed k r found]
    · cases found

def erase (a : ArrayT ι) (p : ι) : Except Fault (ArrayT ι) :=
  match back : a.items.getLast? with
  | none => .ok a
  | some last =>
    if here : a.index p < a.items.length then .ok (a.eraseAt (a.index p) last here back)
    else .error .outOfBounds

theorem erase_total {p : ι} (member : p ∈ a.items) : ∃ b, a.erase p = .ok b := by
  unfold erase
  split
  · exact ⟨a, rfl⟩
  · exact ⟨_, dif_pos (a.index_lt member)⟩

theorem erase_ok {p : ι} (member : p ∈ a.items) (erased : a.erase p = .ok b) :
    ∀ k, b.items[k]? = if k + 1 < a.items.length then
      if k = a.index p then a.items.getLast? else a.items[k]? else none := by
  unfold erase at erased
  split at erased
  · rename_i none_left
    simp [List.getLast?_eq_none_iff.mp none_left] at member
  · rename_i last back
    split at erased
    · rename_i here
      cases erased
      intro k
      simp only [back]
      exact getElem?_erase here last k
    · cases erased

theorem length_swap (swapped : a.swap i j = .ok b) : b.items.length = a.items.length := by
  unfold swap at swapped
  split at swapped
  · cases swapped
    simp [exchange]
  · cases swapped

theorem mem_erase {p : ι} (member : p ∈ a.items) (erased : a.erase p = .ok b)
    {r : ι} : r ∈ b.items ↔ r ∈ a.items ∧ r ≠ p := by
  have after := erase_ok member erased
  have here := a.at_index member
  have bound := a.index_lt member
  rw [List.getLast?_eq_getElem?] at after
  simp only [List.mem_iff_getElem?]
  constructor
  · rintro ⟨k, found⟩
    rw [after] at found
    split at found
    · split at found
      · refine ⟨⟨_, found⟩, ?_⟩
        rintro rfl
        have := a.inj found here
        omega
      · refine ⟨⟨k, found⟩, ?_⟩
        rintro rfl
        have := a.inj found here
        contradiction
    · cases found
  · rintro ⟨⟨k, found⟩, other⟩
    have elsewhere : k ≠ a.index p := by
      rintro rfl
      exact other (Option.some.inj (found.symm.trans here))
    have := (List.getElem?_eq_some_iff.mp found).1
    by_cases last : k = a.items.length - 1
    · refine ⟨a.index p, ?_⟩
      rw [after, if_pos (by omega), if_pos rfl, ← last, found]
    · refine ⟨k, ?_⟩
      rw [after, if_pos (by omega), if_neg elsewhere, found]

theorem length_erase {p : ι} (member : p ∈ a.items)
    (erased : a.erase p = .ok b) : b.items.length + 1 = a.items.length := by
  unfold erase at erased
  split at erased
  · rename_i none_left
    simp [List.getLast?_eq_none_iff.mp none_left] at member
  · split at erased
    · rename_i here
      cases erased
      simp [eraseAt]
      omega
    · cases erased

/-! ## The front of an array

`lb_t`, `fq_t` and `dist_t` divide an array into regions by numbers: the first so many items are
in the region. They enlarge a region by one item, or take one item out of it, with a swap.
-/

def before (a : ArrayT ι) (n : Nat) (p : ι) : Prop := p ∈ a.items.take n

instance (a : ArrayT ι) (n : Nat) (p : ι) : Decidable (a.before n p) :=
  inferInstanceAs (Decidable (_ ∈ _))

section Regions

variable {a b : ArrayT ι} {i j n m : Nat} {p q r : ι}

section

omit [DecidableEq ι]

theorem before_iff : a.before n p ↔ ∃ k, k < n ∧ a.items[k]? = some p := by
  rw [before, List.mem_iff_getElem?]
  constructor
  · rintro ⟨k, found⟩
    rw [List.getElem?_take] at found
    split at found
    · exact ⟨k, by assumption, found⟩
    · cases found
  · rintro ⟨k, inside, found⟩
    exact ⟨k, by rw [List.getElem?_take, if_pos inside, found]⟩

theorem before_at (here : a.items[i]? = some p) : a.before n p ↔ i < n := by
  rw [before_iff]
  constructor
  · rintro ⟨k, inside, found⟩
    rwa [a.inj here found]
  · exact fun inside => ⟨i, inside, here⟩

theorem before_index (member : p ∈ a.items) : a.before n p ↔ a.index p < n :=
  before_at (a.at_index member)

theorem before.mem (inside : a.before n p) : p ∈ a.items := List.mem_of_mem_take inside

theorem before.mono (inside : a.before n p) (le : n ≤ m) : a.before m p := by
  obtain ⟨k, less, found⟩ := before_iff.mp inside
  exact before_iff.mpr ⟨k, by omega, found⟩

theorem not_before_zero : ¬ a.before 0 p := by simp [before]

theorem before_succ (other : a.items[n]? ≠ some r) : a.before (n + 1) r ↔ a.before n r := by
  refine ⟨fun inside => ?_, fun inside => inside.mono (Nat.le_succ n)⟩
  obtain ⟨k, less, found⟩ := before_iff.mp inside
  have elsewhere : k ≠ n := by
    rintro rfl
    exact other found
  exact before_iff.mpr ⟨k, by omega, found⟩

end

theorem before_swap (swapped : a.swap i j = .ok b) (first : a.items[i]? = some p)
    (second : a.items[j]? = some q) :
    b.before m r ↔ if r = p then j < m else if r = q then i < m else a.before m r := by
  obtain ⟨p', q', first', second', after⟩ := swap_ok swapped
  obtain rfl : p = p' := Option.some.inj (first.symm.trans first')
  obtain rfl : q = q' := Option.some.inj (second.symm.trans second')
  split
  · rename_i same
    subst same
    exact before_at (by rw [after, if_pos rfl])
  · rename_i other
    split
    · rename_i same
      subst same
      have apart : i ≠ j := by
        rintro rfl
        exact other (Option.some.inj (second.symm.trans first))
      exact before_at (by rw [after, if_neg apart, if_pos rfl])
    · rename_i another
      have same (k : Nat) : b.items[k]? = some r ↔ a.items[k]? = some r := by
        rw [after]
        split
        · rename_i here
          subst here
          rw [second]
          simp [Ne.symm other, Ne.symm another]
        · split
          · rename_i here
            subst here
            rw [first]
            simp [Ne.symm other, Ne.symm another]
          · exact Iff.rfl
      simp only [before_iff, same]

theorem before_swap_symm (swapped : a.swap j i = .ok b) (first : a.items[i]? = some p)
    (second : a.items[j]? = some q) :
    b.before m r ↔ if r = p then j < m else if r = q then i < m else a.before m r := by
  rw [before_swap swapped second first]
  by_cases here : r = p
  · subst here
    by_cases there : r = q
    · subst there
      simp [a.inj first second]
    · simp [there]
  · simp [here]

theorem before_of_swap (swapped : a.swap i j = .ok b) (same : i < m ↔ j < m) :
    b.before m r ↔ a.before m r := by
  obtain ⟨p, q, first, second, -⟩ := swap_ok swapped
  rw [before_swap swapped first second]
  split
  · rename_i here
    rw [here, before_at first, same]
  · split
    · rename_i here
      rw [here, before_at second, same]
    · exact Iff.rfl

theorem mem_swap (swapped : a.swap i j = .ok b) : r ∈ b.items ↔ r ∈ a.items := by
  obtain ⟨p, q, first, second, -⟩ := swap_ok swapped
  have left := (List.getElem?_eq_some_iff.mp first).1
  have right := (List.getElem?_eq_some_iff.mp second).1
  have inside := before_of_swap (r := r) swapped (iff_of_true left right)
  rwa [before, before, List.take_length, ← length_swap swapped, List.take_length] at inside

theorem before_grow (moved : ∀ m r, b.before m r ↔
      if r = p then n < m else if r = q then i < m else a.before m r) (here : a.items[i]? = some p)
    (there : a.items[n]? = some q) (beyond : n ≤ i) :
    b.before (n + 1) r ↔ a.before n r ∨ r = p := by
  rw [moved]
  split
  · rename_i same
    simp [same]
  · rename_i other
    split
    · rename_i same
      subst same
      have apart : i ≠ n := by
        rintro rfl
        exact other (Option.some.inj (there.symm.trans here))
      rw [before_at there, or_iff_left other]
      omega
    · rename_i another
      rw [before_succ (by rw [there]; simp [Ne.symm another])]
      simp [other]

theorem before_shrink (swapped : a.swap i (n - 1) = .ok b) (here : a.items[i]? = some p)
    (inside : i < n) : b.before (n - 1) r ↔ a.before n r ∧ r ≠ p := by
  obtain ⟨p', q, first, last, -⟩ := swap_ok swapped
  rw [before_swap swapped here last]
  obtain ⟨n, rfl⟩ : ∃ k, n = k + 1 := ⟨n - 1, by omega⟩
  simp only [Nat.add_sub_cancel] at last ⊢
  split
  · rename_i same
    simp [same]
  · rename_i other
    split
    · rename_i same
      subst same
      have apart : i ≠ n := by
        rintro rfl
        exact other (Option.some.inj (last.symm.trans here))
      rw [before_at last, and_iff_left other]
      omega
    · rename_i another
      rw [before_succ (by rw [last]; simp [Ne.symm another])]
      simp [other]

theorem before_pushBack (new : p ∉ a.items) (le : n ≤ a.items.length) :
    (a.pushBack p new).before n r ↔ a.before n r := by
  rw [before, pushBack, List.take_append_of_le_length le, before]

theorem before_erase (member : p ∈ a.items) (erased : a.erase p = .ok b) (beyond : n ≤ a.index p) :
    b.before n r ↔ a.before n r := by
  have after := erase_ok member erased
  have bound := a.index_lt member
  have same (k : Nat) (inside : k < n) : b.items[k]? = a.items[k]? := by
    rw [after, if_pos (by omega), if_neg (by omega)]
  simp only [before_iff]
  constructor
  · rintro ⟨k, inside, found⟩
    exact ⟨k, inside, by rw [← same k inside, found]⟩
  · rintro ⟨k, inside, found⟩
    exact ⟨k, inside, by rw [same k inside, found]⟩

end Regions

end ArrayT

end Zmq
