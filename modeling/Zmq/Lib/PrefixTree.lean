import Mathlib

/-! # Prefix trees with narrow tables

A tree of byte strings whose nodes hold a value and a table of children. The table covers
only a range of bytes, from the first child to the last, and is moved and resized as
children come and go. A node without a value and without children is taken out of the
tree. What a tree means is a function from byte strings to values; the operations are
stated by what they do to that function.
-/

namespace Zmq.Lib

/-- A node. The table has an entry for each byte from `min` on; `live` counts the children. -/
structure PrefixTree (α : Type) where
  value : α
  min : Nat
  live : Nat
  table : List (Option (PrefixTree α))

namespace PrefixTree

variable {α : Type} {table : List (Option (PrefixTree α))}

theorem children_induction {P : PrefixTree α → Prop}
    (step : ∀ n : PrefixTree α, (∀ m, some m ∈ n.table → P m) → P n) (n : PrefixTree α) : P n := by
  refine @PrefixTree.rec α P (fun table => ∀ m, some m ∈ table → P m)
    (fun entry => ∀ m, entry = some m → P m) ?_ ?_ ?_ ?_ ?_ n
  · intro value min live table children
    exact step _ children
  · exact nofun
  · intro entry rest first others m member
    rcases List.mem_cons.mp member with same | member
    · exact first m same.symm
    · exact others m member
  · exact nofun
  · intro n holds m same
    cases same
    exact holds

variable (n : PrefixTree α)

def child (c : Nat) : Option (PrefixTree α) :=
  if c < n.min ∨ n.min + n.table.length ≤ c then none else n.table[c - n.min]?.join

def widen (c : Nat) : PrefixTree α :=
  if n.min ≤ c ∧ c < n.min + n.table.length then n
  else if n.table = [] then { n with min := c, table := [none] }
  else if n.min < c then
    { n with table := n.table ++ List.replicate (c + 1 - n.min - n.table.length) none }
  else { n with min := c, table := List.replicate (n.min - c) none ++ n.table }

def put (c : Nat) (m : PrefixTree α) : PrefixTree α :=
  { n with table := n.table.set (c - n.min) (some m) }

/-- Make the table as narrow as its children allow. -/
def trim : PrefixTree α :=
  if n.table.all Option.isNone then { n with table := [] }
  else
    { n with
      min := n.min + (n.table.takeWhile Option.isNone).length
      table := (n.table.dropWhile Option.isNone).rdropWhile Option.isNone }

section Meaning

variable [Inhabited α]

def empty : PrefixTree α where
  value := default
  min := 0
  live := 0
  table := []

/-- The value of a byte string, `default` if there is none. -/
def find : List UInt8 → PrefixTree α → α
  | [], n => n.value
  | c :: key, n =>
    match n.child c.toNat with
    | none => default
    | some m => find key m

/-- The values of the prefixes of a byte string that have a node. -/
def path : List UInt8 → PrefixTree α → List α
  | [], n => [n.value]
  | c :: key, n =>
    n.value :: match n.child c.toNat with
      | none => []
      | some m => path key m

variable [DecidableEq α]

def redundant (n : PrefixTree α) : Bool := decide (n.value = default) && n.live == 0

/-- Change the value of a byte string, with new nodes where there are none. -/
def grow (f : α → α) : List UInt8 → PrefixTree α → PrefixTree α
  | [], n => { n with value := f n.value }
  | c :: key, n =>
    match (n.widen c.toNat).child c.toNat with
    | some m => (n.widen c.toNat).put c.toNat (grow f key m)
    | none => { (n.widen c.toNat).put c.toNat (grow f key empty) with live := n.live + 1 }

def cut (n : PrefixTree α) (c : Nat) : PrefixTree α :=
  trim { n with live := n.live - 1, table := n.table.set (c - n.min) none }

/-- Change the value of a byte string that has a node, and take out what is of no use then. -/
def shrink (f : α → α) : List UInt8 → PrefixTree α → PrefixTree α
  | [], n => { n with value := f n.value }
  | c :: key, n =>
    match n.child c.toNat with
    | none => n
    | some m =>
      if (shrink f key m).redundant then n.cut c.toNat else n.put c.toNat (shrink f key m)

mutual

/-- Change all values, and take out what is of no use then. -/
def sweep (f : α → α) : PrefixTree α → PrefixTree α
  | ⟨value, min, _, table⟩ =>
    trim
      { value := f value
        min := min
        live := (sweepTable f table).countP Option.isSome
        table := sweepTable f table }

def sweepTable (f : α → α) : List (Option (PrefixTree α)) → List (Option (PrefixTree α))
  | [] => []
  | none :: rest => none :: sweepTable f rest
  | some n :: rest =>
    (if (sweep f n).redundant then none else some (sweep f n)) :: sweepTable f rest

end

mutual

/-- The byte strings that have a value, with their values; a node comes before its children. -/
def entries : PrefixTree α → List (List UInt8 × α)
  | ⟨value, min, _, table⟩ =>
    (if value = default then [] else [([], value)]) ++ entriesTable min table

def entriesTable : Nat → List (Option (PrefixTree α)) → List (List UInt8 × α)
  | _, [] => []
  | c, none :: rest => entriesTable (c + 1) rest
  | c, some n :: rest =>
    (entries n).map (fun e => (.ofNat c :: e.1, e.2)) ++ entriesTable (c + 1) rest

end

end Meaning

/-! ## Tables -/

section Tables

variable {n m : PrefixTree α} {c x : Nat}

theorem child_eq (n : PrefixTree α) (c : Nat) :
    n.child c = if c < n.min then none else n.table[c - n.min]?.join := by
  unfold child
  by_cases low : c < n.min
  · simp [low]
  · by_cases high : n.min + n.table.length ≤ c
    · rw [if_pos (.inr high), if_neg low, List.getElem?_eq_none (by omega)]
      rfl
    · rw [if_neg (by omega), if_neg low]

theorem mem_of_child (found : n.child c = some m) : some m ∈ n.table := by
  rw [child_eq] at found
  split at found
  · cases found
  · exact List.mem_of_getElem? (Option.join_eq_some_iff.mp found)

theorem range_of_child (found : n.child c ≠ none) : n.min ≤ c ∧ c < n.min + n.table.length := by
  unfold child at found
  split at found
  · exact absurd rfl found
  · omega

/-- The table of one node is that of another with nothing around it. -/
def Pads (a b : PrefixTree α) : Prop :=
  ∃ before after, a.table = before ++ (b.table ++ after) ∧ (∀ e ∈ before ++ after, e = none) ∧
    (b.table ≠ [] → b.min = a.min + before.length)

namespace Pads

variable {a b : PrefixTree α}

theorem child (pads : a.Pads b) (x : Nat) : b.child x = a.child x := by
  obtain ⟨before, after, split, vacant, moved⟩ := pads
  have nothing {entries : List (Option (PrefixTree α))} (vacant : ∀ e ∈ entries, e = none)
      (i : Nat) : entries[i]?.join = none := by
    cases found : entries[i]? with
    | none => rfl
    | some e => rw [vacant e (List.mem_of_getElem? found)]; rfl
  rw [child_eq a, split]
  by_cases filled : b.table = []
  · rw [child_eq, filled]
    simp only [List.getElem?_nil, Option.join_none, ite_self, List.nil_append, nothing vacant]
  · obtain ⟨vacant, vacant'⟩ := List.forall_mem_append.mp vacant
    rw [child_eq, moved filled]
    by_cases low : x < a.min
    · rw [if_pos low, if_pos (by omega)]
    · rw [if_neg low, List.getElem?_append]
      by_cases early : x - a.min < before.length
      · rw [if_pos early, if_pos (by omega), nothing vacant]
      · rw [if_neg early, if_neg (by omega), List.getElem?_append, Nat.sub_sub]
        by_cases late : x - (a.min + before.length) < b.table.length
        · rw [if_pos late]
        · rw [if_neg late, nothing vacant', List.getElem?_eq_none (by omega)]
          rfl

theorem mem (pads : a.Pads b) : some m ∈ b.table ↔ some m ∈ a.table := by
  obtain ⟨before, after, split, vacant, -⟩ := pads
  have outside : some m ∉ before ++ after := fun inside => nomatch vacant _ inside
  rw [List.mem_append, not_or] at outside
  simp [split, outside]

theorem countP (pads : a.Pads b) :
    b.table.countP Option.isSome = a.table.countP Option.isSome := by
  obtain ⟨before, after, split, vacant, -⟩ := pads
  have nobody : (before ++ after).countP Option.isSome = 0 :=
    List.countP_eq_zero.mpr fun e member => by simp [vacant e member]
  rw [List.countP_append] at nobody
  rw [split, List.countP_append, List.countP_append]
  omega

end Pads

theorem widen_pads (n : PrefixTree α) (c : Nat) : (n.widen c).Pads n := by
  unfold widen
  split
  · exact ⟨[], [], by simp, nofun, fun _ => rfl⟩
  · split
    · rename_i empty
      exact ⟨[], [none], by simp [empty], by simp, fun filled => absurd empty filled⟩
    · split
      · exact ⟨[], _, rfl, by simp, fun _ => rfl⟩
      · refine ⟨_, [], by rw [List.append_nil], by simp, fun _ => ?_⟩
        simp only [List.length_replicate]
        omega

theorem child_widen (n : PrefixTree α) (c x : Nat) : (n.widen c).child x = n.child x :=
  ((n.widen_pads c).child x).symm

theorem widen_range (n : PrefixTree α) (c : Nat) :
    (n.widen c).min ≤ c ∧ c < (n.widen c).min + (n.widen c).table.length := by
  unfold widen
  split
  · assumption
  · split
    · simp
    · split
      · simp only [List.length_append, List.length_replicate]
        omega
      · rename_i outside filled low
        have : n.table.length ≠ 0 := by simpa using filled
        simp only [List.length_append]
        omega

theorem child_set (inside : n.min ≤ c ∧ c < n.min + n.table.length) {entry : Option (PrefixTree α)}
    {live : Nat} :
    child { n with live := live, table := n.table.set (c - n.min) entry } x =
      if x = c then entry else n.child x := by
  have after : child { n with live := live, table := n.table.set (c - n.min) entry } x =
      if x < n.min then none else (n.table.set (c - n.min) entry)[x - n.min]?.join := child_eq ..
  rw [after, child_eq]
  by_cases same : x = c
  · subst same
    rw [if_neg (by omega), if_pos rfl, List.getElem?_set_self (by omega)]
    rfl
  · rw [if_neg same]
    by_cases low : x < n.min
    · rw [if_pos low, if_pos low]
    · rw [if_neg low, if_neg low, List.getElem?_set_ne (by omega)]

theorem child_put (inside : n.min ≤ c ∧ c < n.min + n.table.length) :
    (n.put c m).child x = if x = c then some m else n.child x :=
  child_set inside

variable (n : PrefixTree α)

def Tight : Prop :=
  n.table ≠ [] → n.child n.min ≠ none ∧ n.child (n.min + n.table.length - 1) ≠ none

theorem trim_pads : n.Pads n.trim := by
  unfold trim
  split
  · rename_i vacant
    refine ⟨n.table, [], by simp, fun e member => ?_, fun filled => absurd rfl filled⟩
    simpa using List.all_eq_true.mp vacant e (by simpa using member)
  · refine ⟨n.table.takeWhile Option.isNone,
      (n.table.dropWhile Option.isNone).rtakeWhile Option.isNone, ?_,
      List.forall_mem_append.mpr ⟨fun e member => ?_, fun e member => ?_⟩, fun _ => rfl⟩
    · rw [List.rdropWhile_append_rtakeWhile, List.takeWhile_append_dropWhile]
    · simpa using List.mem_takeWhile_imp member
    · simpa using List.mem_rtakeWhile_imp member

theorem child_trim (x : Nat) : n.trim.child x = n.child x := n.trim_pads.child x

theorem tight_trim : n.trim.Tight := by
  intro filled
  have first : n.trim.table.head filled ≠ none ∧ n.trim.table.getLast filled ≠ none := by
    revert filled
    unfold trim
    split
    · intro filled
      exact absurd rfl filled
    · intro filled
      have longer : n.table.dropWhile Option.isNone ≠ [] := by
        intro nothing
        simp [nothing] at filled
      have front := List.head_dropWhile_not Option.isNone longer
      have same : ((n.table.dropWhile Option.isNone).rdropWhile Option.isNone).head filled =
          (n.table.dropWhile Option.isNone).head longer :=
        (List.rdropWhile_prefix ..).head filled
      have back := List.rdropWhile_last_not _ _ filled
      constructor
      · intro nothing
        rw [← same] at front
        simp [nothing] at front
      · intro nothing
        simp [nothing] at back
  have length : 0 < n.trim.table.length := List.length_pos_iff.mpr filled
  constructor
  · rw [child_eq, if_neg (by omega), Nat.sub_self, ← List.head?_eq_getElem?,
      List.head?_eq_some_head filled]
    exact first.1
  · rw [child_eq, if_neg (by omega), Nat.add_sub_assoc (by omega), Nat.add_sub_cancel_left,
      ← List.getLast?_eq_getElem?, List.getLast?_eq_some_getLast filled]
    exact first.2

theorem trim_fits : n.trim.min + n.trim.table.length ≤ n.min + n.table.length := by
  unfold trim
  split
  · simp
  · have front := congrArg List.length
      (List.takeWhile_append_dropWhile (p := Option.isNone) (l := n.table))
    have back := (List.rdropWhile_prefix Option.isNone
      (n.table.dropWhile Option.isNone)).length_le
    rw [List.length_append] at front
    simp only
    omega

@[simp] theorem trim_value : n.trim.value = n.value := by
  unfold trim; split <;> rfl

@[simp] theorem trim_live : n.trim.live = n.live := by
  unfold trim; split <;> rfl

variable {n}

theorem ext_tight {a b : PrefixTree α} (value : a.value = b.value) (live : a.live = b.live)
    (filled : a.table ≠ []) (left : a.Tight) (right : b.Tight)
    (same : ∀ x, a.child x = b.child x) : a = b := by
  obtain ⟨first, last⟩ := left filled
  have low := range_of_child (same a.min ▸ first)
  have filled' : b.table ≠ [] := by
    intro empty
    simp [empty] at low
    omega
  obtain ⟨first', last'⟩ := right filled'
  have high := range_of_child (same _ ▸ last)
  have low' := range_of_child (same b.min ▸ first')
  have high' := range_of_child (same _ ▸ last')
  have min : a.min = b.min := by omega
  have length : a.table.length = b.table.length := by omega
  have table : a.table = b.table := by
    refine List.ext_getElem length fun i inside inside' => ?_
    have entry := same (a.min + i)
    rw [child_eq, child_eq, if_neg (by omega), if_neg (by omega), ← min, Nat.add_sub_cancel_left,
      List.getElem?_eq_getElem inside, List.getElem?_eq_getElem inside'] at entry
    simpa using entry
  cases a
  cases b
  simp only at value live min table
  simp [value, live, min, table]

theorem trim_between {i j : Nat} (le : i ≤ j) (first : n.table[i]?.join ≠ none)
    (last : n.table[j]?.join ≠ none) (before : ∀ k, k < i → n.table[k]?.join = none)
    (after : ∀ k, j < k → n.table[k]?.join = none) :
    n.trim = { n with min := n.min + i, table := (n.table.drop i).take (j + 1 - i) } := by
  have inside : j < n.table.length := by
    by_contra beyond
    simp [List.getElem?_eq_none (Nat.le_of_not_lt beyond)] at last
  have entry (x : Nat) : ((n.table.drop i).take (j + 1 - i))[x]?.join = n.table[i + x]?.join := by
    rw [List.getElem?_take]
    split
    · rw [List.getElem?_drop]
    · rw [after (i + x) (by omega)]
      rfl
  have length : ((n.table.drop i).take (j + 1 - i)).length = j + 1 - i := by
    simp only [List.length_take, List.length_drop]
    omega
  have children (x : Nat) : PrefixTree.child
      { n with min := n.min + i, table := (n.table.drop i).take (j + 1 - i) } x = n.child x := by
    rw [child_eq, child_eq]
    simp only
    by_cases low : x < n.min
    · rw [if_pos low, if_pos (by omega)]
    · rw [if_neg low]
      split
      · rw [before (x - n.min) (by omega)]
      · rw [entry]
        congr 3
        omega
  symm
  refine ext_tight (trim_value n).symm (trim_live n).symm ?_ ?_ (tight_trim n) fun x => ?_
  · simp only [ne_eq, ← List.length_eq_zero_iff]
    omega
  · intro _
    rw [children, children]
    simp only [length]
    refine ⟨?_, ?_⟩
    · rwa [child_eq, if_neg (by omega), Nat.add_sub_cancel_left]
    · rw [child_eq, if_neg (by omega)]
      rwa [show n.min + i + (j + 1 - i) - 1 - n.min = j by omega]
  · rw [child_trim]
    exact children x

@[simp] theorem widen_value (n : PrefixTree α) (c : Nat) : (n.widen c).value = n.value := by
  unfold widen; split_ifs <;> rfl

@[simp] theorem widen_live (n : PrefixTree α) (c : Nat) : (n.widen c).live = n.live := by
  unfold widen; split_ifs <;> rfl

theorem widen_ends (n : PrefixTree α) (c : Nat) :
    ((n.widen c).min = c ∨ n.table ≠ [] ∧ (n.widen c).min = n.min) ∧
    ((n.widen c).min + (n.widen c).table.length = c + 1 ∨ n.table ≠ [] ∧
      (n.widen c).min + (n.widen c).table.length = n.min + n.table.length) := by
  unfold widen
  split
  · rename_i inside
    have filled : n.table ≠ [] := by
      rintro empty
      simp [empty] at inside
      omega
    exact ⟨.inr ⟨filled, rfl⟩, .inr ⟨filled, rfl⟩⟩
  · split
    · exact ⟨.inl rfl, .inl rfl⟩
    · rename_i outside filled
      split
      · refine ⟨.inr ⟨filled, rfl⟩, .inl ?_⟩
        simp only [List.length_append, List.length_replicate]
        omega
      · refine ⟨.inl rfl, .inr ⟨filled, ?_⟩⟩
        simp only [List.length_append, List.length_replicate]
        omega

theorem widen_of_child (found : n.child c = some m) : n.widen c = n :=
  if_pos (range_of_child (by simp [found]))

end Tables

/-! ## Well-formed trees -/

section WellFormed

variable {n m : PrefixTree α} {c x : Nat} {f : α → α} {key k : List UInt8}

/-- Tables are narrow and children are counted. -/
inductive Wf : PrefixTree α → Prop where
  | mk {n : PrefixTree α} : n.live = n.table.countP Option.isSome →
      n.min + n.table.length ≤ 256 → n.Tight → (∀ m, some m ∈ n.table → Wf m) → Wf n

theorem live_pos (wf : n.Wf) (found : n.child c = some m) : 0 < n.live := by
  obtain ⟨count, -, -, -⟩ := wf
  rw [count]
  exact List.countP_pos_iff.mpr ⟨_, mem_of_child found, rfl⟩

theorem Wf.child (wf : n.Wf) (found : n.child c = some m) : m.Wf := by
  obtain ⟨-, -, -, children⟩ := wf
  exact children m (mem_of_child found)

theorem Wf.ends (wf : n.Wf) : n.Tight := by
  obtain ⟨-, -, tight, -⟩ := wf
  exact tight

theorem child_grown (n m : PrefixTree α) (c x live : Nat) :
    child { (n.widen c).put c m with live := live } x = if x = c then some m else n.child x := by
  rw [← child_widen n c x]
  exact child_set (n.widen_range c)

theorem wf_put (wf : n.Wf) (byte : c < 256) (below : m.Wf) :
    Wf { (n.widen c).put c m with live := if n.child c = none then n.live + 1 else n.live } := by
  obtain ⟨count, fits, tight, children⟩ := wf
  have inside := n.widen_range c
  obtain ⟨first, last⟩ := n.widen_ends c
  refine .mk ?_ ?_ (fun _ => ⟨?_, ?_⟩) fun m' member => ?_
  · have bound : c - (n.widen c).min < (n.widen c).table.length := by omega
    have here : n.child c = (n.widen c).table[c - (n.widen c).min] := by
      rw [← child_widen n c c, child_eq, if_neg (by omega), List.getElem?_eq_getElem bound]
      rfl
    simp only [put]
    rw [List.countP_set bound, ← (n.widen_pads c).countP, ← count, ← here]
    cases old : n.child c with
    | none => simp
    | some m' =>
      have := live_pos (.mk count fits tight children) old
      simp
      omega
  · simp only [put, List.length_set]
    rcases last with last | ⟨-, last⟩
    · omega
    · omega
  · rw [child_grown]
    rcases first with same | ⟨filled, same⟩
    · simp [put, same]
    · simp only [put, same]
      split
      · simp
      · exact (tight filled).1
  · rw [child_grown]
    simp only [put, List.length_set]
    rcases last with same | ⟨filled, same⟩
    · simp [same]
    · rw [same]
      split
      · simp
      · exact (tight filled).2
  · rcases List.mem_or_eq_of_mem_set member with old | new
    · exact children m' ((n.widen_pads c).mem.mpr old)
    · rw [Option.some.inj new]
      exact below

theorem wf_replace (wf : n.Wf) (found : n.child c = some m) {m' : PrefixTree α} (below : m'.Wf) :
    (n.put c m').Wf := by
  have byte : c < 256 := by
    obtain ⟨-, fits, -, -⟩ := wf
    have := range_of_child (show n.child c ≠ none by simp [found])
    omega
  have put := wf_put wf byte below
  rw [widen_of_child found, if_neg (by simp [found])] at put
  exact put

theorem wf_trim (count : n.live = n.table.countP Option.isSome)
    (fits : n.min + n.table.length ≤ 256) (children : ∀ m, some m ∈ n.table → m.Wf) :
    n.trim.Wf := by
  refine .mk ?_ (Nat.le_trans (trim_fits n) fits) (tight_trim n) fun m member => ?_
  · rw [n.trim_pads.countP, trim_live, count]
  · exact children m (n.trim_pads.mem.mp member)

theorem wf_cut (wf : n.Wf) (found : n.child c = some m) : (n.cut c).Wf := by
  obtain ⟨count, fits, tight, children⟩ := wf
  have inside := range_of_child (show n.child c ≠ none by simp [found])
  have bound : c - n.min < n.table.length := by omega
  have here : n.table[c - n.min] = some m := by
    rw [child_eq, if_neg (by omega), List.getElem?_eq_getElem bound] at found
    simpa using found
  refine wf_trim ?_ (by simpa using fits) fun m' member => ?_
  · simp [List.countP_set bound, here, count]
  · rcases List.mem_or_eq_of_mem_set member with old | new
    · exact children m' old
    · cases new

theorem child_cut (found : n.child c = some m) :
    (n.cut c).child x = if x = c then none else n.child x := by
  rw [cut, child_trim]
  exact child_set (range_of_child (by simp [found]))

theorem two_le_countP {i j : Nat} (first : table[i]?.join ≠ none) (second : table[j]?.join ≠ none)
    (apart : i ≠ j) : 2 ≤ table.countP Option.isSome := by
  obtain ⟨m, first⟩ := Option.ne_none_iff_exists'.mp first
  obtain ⟨m', second⟩ := Option.ne_none_iff_exists'.mp second
  obtain ⟨inside, here⟩ := List.getElem?_eq_some_iff.mp (Option.join_eq_some_iff.mp first)
  have left : some m' ∈ table.set i none := by
    refine List.mem_of_getElem? (i := j) ?_
    rw [List.getElem?_set_ne apart]
    exact Option.join_eq_some_iff.mp second
  have pos : 0 < (table.set i none).countP Option.isSome :=
    List.countP_pos_iff.mpr ⟨_, left, rfl⟩
  rw [List.countP_set inside, here] at pos
  simp at pos
  omega

theorem two_le_live (wf : n.Wf) (found : n.child c ≠ none) (other : n.child x ≠ none)
    (apart : x ≠ c) : 2 ≤ n.live := by
  have low := range_of_child found
  have low' := range_of_child other
  rw [child_eq, if_neg (by omega)] at found other
  obtain ⟨count, -, -, -⟩ := wf
  rw [count]
  exact two_le_countP found other (by omega)

theorem live_of_single (wf : n.Wf) (size : n.table.length = 1) : n.live = 1 := by
  obtain ⟨count, -, tight, -⟩ := wf
  obtain ⟨entry, table⟩ := List.length_eq_one_iff.mp size
  have first := (tight (by simp [table])).1
  replace first : entry ≠ none := by
    simpa [child_eq, table] using first
  simpa [table, Option.isSome_iff_ne_none, first] using count

theorem live_of_several (wf : n.Wf) (size : 1 < n.table.length) : 2 ≤ n.live := by
  obtain ⟨first, last⟩ := wf.ends (List.length_pos_iff.mp (by omega))
  exact two_le_live wf first last (by omega)

end WellFormed

/-! ## What the operations do to the values -/

section Values

variable [Inhabited α] {n m : PrefixTree α} {c x : Nat} {f : α → α} {key k : List UInt8} {v : α}

theorem wf_empty : (empty : PrefixTree α).Wf :=
  .mk rfl (by simp [empty]) (fun filled => absurd rfl filled) nofun

theorem Wf.getD (wf : n.Wf) (c : Nat) : ((n.child c).getD empty).Wf := by
  cases found : n.child c with
  | none => exact wf_empty
  | some m => exact wf.child found

@[simp] theorem find_empty (key : List UInt8) : find key (empty : PrefixTree α) = default := by
  cases key with
  | nil => rfl
  | cons c key => simp [find, child_eq, empty]

theorem find_cons (c : UInt8) (key : List UInt8) (n : PrefixTree α) :
    find (c :: key) n = find key ((n.child c.toNat).getD empty) := by
  cases found : n.child c.toNat with
  | none | some => simp [find, found]

/-- The values along a byte string are those of its prefixes. -/
theorem path_eq [DecidableEq α] (key : List UInt8) (n : PrefixTree α) :
    (path key n).filter (· ≠ default) = (key.inits.map fun k => find k n).filter (· ≠ default) := by
  induction key generalizing n with
  | nil => rfl
  | cons c key ih =>
    have rest : (match n.child c.toNat with
        | none => []
        | some m => path key m).filter (· ≠ default) =
        (key.inits.map fun k => find (c :: k) n).filter (· ≠ default) := by
      simp only [find_cons]
      cases n.child c.toNat with
      | none => simp
      | some m => exact ih m
    simp only [path, List.inits, List.map_cons, List.map_map, List.filter_cons]
    rw [rest]
    rfl

/-! ### Growth -/

theorem grow_cons (f : α → α) (c : UInt8) (key : List UInt8) (n : PrefixTree α) :
    grow f (c :: key) n =
      { (n.widen c.toNat).put c.toNat (grow f key ((n.child c.toNat).getD empty)) with
        live := if n.child c.toNat = none then n.live + 1 else n.live } := by
  simp only [grow, child_widen]
  cases found : n.child c.toNat with
  | none => simp
  | some m => simp [put]

theorem wf_grow (wf : n.Wf) : (grow f key n).Wf := by
  induction key generalizing n with
  | nil =>
    obtain ⟨count, fits, tight, children⟩ := wf
    exact .mk count fits tight children
  | cons c key ih =>
    rw [grow_cons]
    exact wf_put wf c.toNat_lt (ih (wf.getD _))

theorem find_grow (f : α → α) (key k : List UInt8) (n : PrefixTree α) :
    find k (grow f key n) = if k = key then f (find key n) else find k n := by
  induction key generalizing k n with
  | nil =>
    cases k with
    | nil => rfl
    | cons x k => rfl
  | cons c key ih =>
    rw [grow_cons]
    cases k with
    | nil => exact n.widen_value c.toNat
    | cons x k =>
      rw [find_cons, child_grown, find_cons, find_cons]
      by_cases same : x = c
      · subst same
        simp [ih]
      · have apart : x.toNat ≠ c.toNat := fun equal => same (UInt8.toNat_inj.mp equal)
        simp [apart, same]

/-! ### Removal -/

section Removal

variable [DecidableEq α]

theorem find_redundant (wf : n.Wf) (useless : n.redundant = true) : find key n = default := by
  obtain ⟨value, live⟩ : n.value = default ∧ n.live = 0 := by simpa [redundant] using useless
  cases key with
  | nil => exact value
  | cons c key =>
    have nobody : n.child c.toNat = none := by
      cases found : n.child c.toNat with
      | none => rfl
      | some m =>
        have := live_pos wf found
        omega
    simp [find, nobody]

theorem find_kept (wf : n.Wf) :
    find key ((if n.redundant then none else some n).getD empty) = find key n := by
  split
  · rename_i useless
    rw [find_redundant wf useless, Option.getD_none, find_empty]
  · rfl

theorem wf_shrink (wf : n.Wf) : (shrink f key n).Wf := by
  induction key generalizing n with
  | nil =>
    obtain ⟨count, fits, tight, children⟩ := wf
    exact .mk count fits tight children
  | cons c key ih =>
    unfold shrink
    split
    · exact wf
    · rename_i m found
      split
      · exact wf_cut wf found
      · exact wf_replace wf found (ih (wf.child found))

theorem find_shrink (wf : n.Wf) (keeps : f default = default) (k : List UInt8) :
    find k (shrink f key n) = if k = key then f (find key n) else find k n := by
  induction key generalizing k n with
  | nil =>
    cases k with
    | nil => rfl
    | cons x k => rfl
  | cons c key ih =>
    unfold shrink
    split
    · rename_i nobody
      split
      · rename_i same
        simp [same, find, nobody, keeps]
      · rfl
    · rename_i m found
      have here : find (c :: key) n = find key m := by simp [find, found]
      cases k with
      | nil => split <;> simp [find, cut, put]
      | cons x k =>
        have left : (if (shrink f key m).redundant then n.cut c.toNat
            else n.put c.toNat (shrink f key m)).child x.toNat = if x.toNat = c.toNat then
              if (shrink f key m).redundant then none else some (shrink f key m)
            else n.child x.toNat := by
          split
          · exact child_cut found
          · exact child_put (range_of_child (by simp [found]))
        rw [find_cons, left, find_cons x k n]
        by_cases same : x = c
        · subst same
          rw [if_pos rfl, find_kept (wf_shrink (wf.child found)), ih (wf.child found)]
          simp [here, found]
        · have apart : x.toNat ≠ c.toNat := fun equal => same (UInt8.toNat_inj.mp equal)
          simp [apart, same]

/-! ### Removal everywhere -/

theorem sweepTable_eq (f : α → α) (table : List (Option (PrefixTree α))) :
    sweepTable f table = table.map fun entry =>
      entry.bind fun m => if (sweep f m).redundant then none else some (sweep f m) := by
  induction table with
  | nil => simp [sweepTable]
  | cons entry rest ih =>
    cases entry with
    | none | some => simp [sweepTable, ih]

theorem sweep_eq (f : α → α) (n : PrefixTree α) : sweep f n =
    trim
      { value := f n.value
        min := n.min
        live := (sweepTable f n.table).countP Option.isSome
        table := sweepTable f n.table } := by
  cases n
  simp only [sweep]

theorem wf_sweep (wf : n.Wf) : (sweep f n).Wf := by
  induction n using children_induction with
  | step n ih =>
    obtain ⟨-, fits, -, children⟩ := wf
    rw [sweep_eq]
    refine wf_trim rfl ?_ fun m member => ?_
    · simpa [sweepTable_eq] using fits
    · simp only [sweepTable_eq, List.mem_map] at member
      obtain ⟨entry, there, kept⟩ := member
      cases entry with
      | none => cases kept
      | some m' =>
        simp only [Option.bind_some] at kept
        split at kept
        · cases kept
        · rw [← Option.some.inj kept]
          exact ih m' there (children m' there)

theorem child_sweep (n : PrefixTree α) (c : Nat) : (sweep f n).child c =
    (n.child c).bind fun m => if (sweep f m).redundant then none else some (sweep f m) := by
  rw [sweep_eq, child_trim, child_eq, child_eq]
  simp only [sweepTable_eq, List.getElem?_map]
  split
  · rfl
  · cases found : n.table[c - n.min]? with
    | none => simp
    | some entry => cases entry <;> simp

theorem find_sweep (wf : n.Wf) (keeps : f default = default) (k : List UInt8) :
    find k (sweep f n) = f (find k n) := by
  induction k generalizing n with
  | nil => simp [find, sweep_eq]
  | cons c k ih =>
    rw [find_cons, find_cons, child_sweep]
    cases found : n.child c.toNat with
    | none => simp [keeps]
    | some m =>
      rw [Option.bind_some, find_kept (wf_sweep (wf.child found)), ih (wf.child found)]
      rfl

/-! ### Listing -/

theorem entries_eq (n : PrefixTree α) : entries n =
    (if n.value = default then [] else [([], n.value)]) ++ entriesTable n.min n.table := by
  cases n
  simp only [entries]

theorem mem_entriesTable :
    (k, v) ∈ entriesTable c table ↔ ∃ i m key, table[i]? = some (some m) ∧
      k = UInt8.ofNat (c + i) :: key ∧ (key, v) ∈ entries m := by
  induction table generalizing c with
  | nil => simp [entriesTable]
  | cons entry rest ih =>
    have below := ih (c := c + 1)
    simp only [Nat.add_assoc, Nat.add_comm 1] at below
    rw [← Nat.or_exists_add_one]
    simp only [List.getElem?_cons_zero, List.getElem?_cons_succ, Nat.add_zero, ← below]
    cases entry with
    | none => simp [entriesTable]
    | some m =>
      simp only [entriesTable, List.mem_append, List.mem_map, Prod.exists, Prod.mk.injEq]
      refine or_congr ⟨?_, ?_⟩ Iff.rfl
      · rintro ⟨key, value, there, rfl, rfl⟩
        exact ⟨m, key, rfl, rfl, there⟩
      · rintro ⟨_, key, same, rfl, there⟩
        cases same
        exact ⟨key, v, there, rfl, rfl⟩

theorem mem_entries (wf : n.Wf) : (k, v) ∈ entries n ↔ v ≠ default ∧ find k n = v := by
  induction k generalizing n with
  | nil =>
    have none_below : ([], v) ∉ entriesTable n.min n.table := by
      rw [mem_entriesTable]
      rintro ⟨_, _, _, _, same, _⟩
      cases same
    simp only [entries_eq, List.mem_append, none_below, or_false, find]
    split
    · rename_i useless
      simp [useless, eq_comm]
    · rename_i useful
      simp only [List.mem_singleton, Prod.mk.injEq, true_and]
      constructor
      · rintro rfl
        exact ⟨useful, rfl⟩
      · exact fun same => same.2.symm
  | cons b k ih =>
    obtain ⟨count, fits, tight, children⟩ := wf
    have here : (b :: k, v) ∈ entries n ↔ (b :: k, v) ∈ entriesTable n.min n.table := by
      rw [entries_eq, List.mem_append, or_iff_right]
      split <;> simp
    rw [here, mem_entriesTable, find_cons]
    constructor
    · rintro ⟨i, m, key, there, same, below⟩
      obtain ⟨rfl, rfl⟩ := List.cons.inj same
      have inside := (List.getElem?_eq_some_iff.mp there).1
      have byte : (UInt8.ofNat (n.min + i)).toNat = n.min + i := by
        rw [UInt8.toNat_ofNat']
        omega
      have found : n.child (n.min + i) = some m := by
        simp [child_eq, there]
      rw [byte, found]
      exact (ih (children m (List.mem_of_getElem? there))).mp below
    · rintro ⟨useful, value⟩
      cases found : n.child b.toNat with
      | none =>
        rw [found] at value
        simp only [Option.getD_none, find_empty] at value
        exact absurd value.symm useful
      | some m =>
        rw [found] at value
        have inside := range_of_child (show n.child b.toNat ≠ none by simp [found])
        refine ⟨b.toNat - n.min, m, k, ?_, ?_, (ih (children m (mem_of_child found))).mpr
          ⟨useful, value⟩⟩
        · rw [child_eq, if_neg (by omega)] at found
          exact Option.join_eq_some_iff.mp found
        · rw [Nat.add_sub_cancel' inside.1]
          simp

theorem nodup_entries (wf : n.Wf) : ((entries n).map (·.1)).Nodup := by
  induction n using children_induction with
  | step n ih =>
    obtain ⟨count, fits, tight, children⟩ := wf
    have table (c : Nat) (table : List (Option (PrefixTree α))) (fits : c + table.length ≤ 256)
        (below : ∀ m, some m ∈ table → ((entries m).map (·.1)).Nodup) :
        ((entriesTable c table).map (·.1)).Nodup := by
      induction table generalizing c with
      | nil => simp [entriesTable]
      | cons entry rest ih =>
        have others := ih (c + 1) (by simp only [List.length_cons] at fits; omega)
          fun m member => below m (.tail _ member)
        cases entry with
        | none => simpa [entriesTable] using others
        | some m =>
          simp only [entriesTable, List.map_append, List.map_map]
          refine List.nodup_append.mpr ⟨?_, others, ?_⟩
          · have := List.Nodup.map (List.cons_injective (a := UInt8.ofNat c))
              (below m (.head _))
            simpa [Function.comp_def] using this
          · rintro _ first _ second rfl
            simp only [List.mem_map, Prod.exists] at first second
            obtain ⟨key, value, there, rfl⟩ := first
            obtain ⟨_, value', there', rfl⟩ := second
            obtain ⟨i, m', key', found, same, -⟩ := mem_entriesTable.mp there'
            have inside := (List.getElem?_eq_some_iff.mp found).1
            simp only [List.length_cons] at fits
            have bytes := congrArg UInt8.toNat (List.cons.inj same).1
            rw [UInt8.toNat_ofNat', UInt8.toNat_ofNat'] at bytes
            omega
    have rest := table n.min n.table fits fun m member => ih m member (children m member)
    rw [entries_eq]
    split
    · simpa using rest
    · simp only [List.singleton_append, List.map_cons, List.nodup_cons]
      refine ⟨?_, rest⟩
      simp only [List.mem_map, Prod.exists, exists_and_right, exists_eq_right]
      rintro ⟨value, there⟩
      obtain ⟨_, _, _, _, same, _⟩ := mem_entriesTable.mp there
      cases same

end Removal

end Values

end PrefixTree

end Zmq.Lib
