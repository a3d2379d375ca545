import Zmq.Lib.PrefixTree
import Zmq.Pipe.Basic

/-! # The subscription trie

`trie_t` counts how often each topic was subscribed to. `generic_mtrie_t` keeps its nodes in
the same way, so the code that widens and narrows a table stands here for both. `_count` is
the length of the table; a node with a single child has a table of length one in place of the
pointer to the child.
-/

namespace Zmq

open Lib PrefixTree

namespace TrieNode

variable {α : Type}

variable (n : PrefixTree α)

/-- The table is extended for a character that is out of its range. -/
def extend (c : Nat) : PrefixTree α :=
  if c < n.min ∨ n.min + n.table.length ≤ c then
    if n.table.length = 0 then { n with min := c, table := [none] }
    else if n.table.length = 1 then
      { n with
        min := Nat.min n.min c
        table := (List.replicate ((if n.min < c then c - n.min else n.min - c) + 1) none).set
          (n.min - Nat.min n.min c) n.table[0]?.join }
    else if n.min < c then
      { n with table := n.table ++ List.replicate (c - n.min + 1 - n.table.length) none }
    else { n with min := c, table := List.replicate (n.min - c) none ++ n.table }
  else n

def create [Inhabited α] (n : PrefixTree α) (c : Nat) : PrefixTree α :=
  if (n.child c).isSome then n else { n.put c .empty with live := n.live + 1 }

/-- The single-node representation, with the child at this place of the table. -/
def keep (i : Nat) (site : AssertSite) : Except Fault (PrefixTree α) :=
  match n.table[i]?.join with
  | some m => .ok { n with min := n.min + i, table := [some m] }
  | none => .error (.assertion site)

def compactLeft (site : AssertSite) : Except Fault (PrefixTree α) :=
  let i := 1 + (n.table.drop 1).findIdx Option.isSome
  if i < n.table.length then .ok { n with min := n.min + i, table := n.table.drop i }
  else .error (.assertion site)

def compactRight (site : AssertSite) : Except Fault (PrefixTree α) :=
  let i := 1 + (n.table.reverse.drop 1).findIdx Option.isSome
  if i < n.table.length then .ok { n with table := n.table.take (n.table.length - i) }
  else .error (.assertion site)

/-- Prune the child for a character. How a table with one child left is made a single node
    is not the same in the two classes. -/
def prune (single : PrefixTree α → Nat → Except Fault (PrefixTree α)) (site : AssertSite)
    (n : PrefixTree α) (c : Nat) : Except Fault (PrefixTree α) :=
  if n.table.length = 0 then .error (.assertion site)
  else if n.table.length = 1 then
    if n.live = 1 then .ok { n with live := 0, table := [] } else .error (.assertion site)
  else if n.live ≤ 1 then .error (.assertion site)
  else
    let n := { n with live := n.live - 1, table := n.table.set (c - n.min) none }
    if n.live = 1 then single n c
    else if c = n.min then compactLeft n site
    else if c = n.min + n.table.length - 1 then compactRight n site
    else .ok n

end TrieNode

/-- `trie_t`; the value of a node is `_refcnt`. -/
abbrev Trie := PrefixTree UInt32

namespace Trie

open TrieNode

def created (old n : Trie) (c : Nat) : Except Fault Trie :=
  if (old.child c).isSome ∨ (if n.table.length = 1 then n.live = 1 else 1 < n.live) then .ok n
  else .error (.assertion .trieAdd)

def add : List UInt8 → Trie → Except Fault (Bool × Trie)
  | [], n => .ok (n.value + 1 == 1, { n with value := n.value + 1 })
  | c :: rest, n => do
      let n ← created n (create (extend n c.toNat) c.toNat) c.toNat
      match n.child c.toNat with
      | none => .error .nullPointer
      | some m => do
          let (isNew, m) ← add rest m
          .ok (isNew, n.put c.toNat m)

/-- The pruned child was the left-most or the right-most one; the one at the other end stays. -/
def single (n : Trie) (c : Nat) : Except Fault Trie :=
  if c = n.min then keep n (n.table.length - 1) .trieRm
  else if c = n.min + n.table.length - 1 then keep n 0 .trieRm
  else .error (.assertion .trieRm)

def rm : List UInt8 → Trie → Except Fault (Bool × Trie)
  | [], n =>
    if n.value = 0 then .ok (false, n)
    else .ok (n.value - 1 == 0, { n with value := n.value - 1 })
  | c :: rest, n =>
    match n.child c.toNat with
    | none => .ok (false, n)
    | some m => do
        let (removed, m) ← rm rest m
        if m.redundant then do
          let n ← prune single .trieRm n c.toNat
          .ok (removed, n)
        else .ok (removed, n.put c.toNat m)

def check : List UInt8 → Trie → Bool
  | [], n => n.value != 0
  | c :: rest, n =>
    if n.value != 0 then true
    else
      match n.child c.toNat with
      | none => false
      | some m => check rest m

def apply (n : Trie) : List (List UInt8) := n.entries.map (·.1)

end Trie

/-! ## Tables -/

namespace TrieNode

variable {α : Type} {n : PrefixTree α} {m : PrefixTree α} {c j : Nat} {site : AssertSite}

theorem extend_eq (n : PrefixTree α) (c : Nat) : extend n c = n.widen c := by
  unfold extend widen
  by_cases inside : n.min ≤ c ∧ c < n.min + n.table.length
  · rw [if_neg (by omega), if_pos inside]
  · rw [if_pos (by omega), if_neg inside]
    by_cases empty : n.table = []
    · rw [if_pos (by simp [empty]), if_pos empty]
    · have filled : n.table.length ≠ 0 := by simpa using empty
      rw [if_neg filled, if_neg empty]
      split
      · rename_i one
        obtain ⟨entry, table⟩ := List.length_eq_one_iff.mp one
        simp only [table, List.length_singleton] at inside ⊢
        by_cases above : n.min < c
        · have left : n.min.min c = n.min := Nat.min_eq_left (Nat.le_of_lt above)
          rw [if_pos above, if_pos above, left, Nat.sub_self, List.replicate_succ]
          simp only [List.set_cons_zero, List.singleton_append, List.getElem?_cons_zero,
            Option.join_some]
          rw [show c + 1 - n.min - 1 = c - n.min by omega]
        · have right : n.min.min c = c := Nat.min_eq_right (by omega)
          rw [if_neg above, if_neg above, right, List.replicate_succ',
            List.set_append_right _ _ (by simp)]
          simp
      · split
        · rw [show c + 1 - n.min = c - n.min + 1 by omega]
        · rfl

theorem child_create [Inhabited α] (n : PrefixTree α) (c : Nat) :
    (create (extend n c) c).child c = some ((n.child c).getD .empty) := by
  unfold create
  rw [extend_eq, child_widen]
  cases found : n.child c with
  | some m => rw [if_pos Option.isSome_some, child_widen, found, Option.getD_some]
  | none =>
    have put := child_put (m := .empty) (x := c) (n.widen_range c)
    rwa [if_pos rfl] at put

theorem put_create [Inhabited α] (n : PrefixTree α) (c : Nat) :
    (create (extend n c) c).put c m = { (n.widen c).put c m with
      live := if n.child c = none then n.live + 1 else n.live } := by
  unfold create
  rw [extend_eq, child_widen]
  cases found : n.child c with
  | some | none => simp [put]

theorem keep_eq {i : Nat} (here : n.table[i]?.join = some m)
    (others : ∀ k, k ≠ i → n.table[k]?.join = none) : keep n i site = .ok n.trim := by
  have narrow := trim_between (Nat.le_refl i) (by simp [here]) (by simp [here])
    (fun k less => others k (by omega)) (fun k more => others k (by omega))
  have found : n.table[i]? = some (some m) := Option.join_eq_some_iff.mp here
  have one : (n.table.drop i).take (i + 1 - i) = [some m] := by
    rw [show i + 1 - i = 1 by omega, List.take_one, List.head?_drop, found]
    rfl
  rw [narrow, one]
  simp only [keep, here]

theorem findIdx_spec {l : List (Option (PrefixTree α))} (there : l[j]?.join ≠ none) :
    l.findIdx Option.isSome ≤ j ∧ l[l.findIdx Option.isSome]?.join ≠ none ∧
      ∀ k, k < l.findIdx Option.isSome → l[k]?.join = none := by
  obtain ⟨m, there⟩ := Option.ne_none_iff_exists'.mp there
  have found := Option.join_eq_some_iff.mp there
  obtain ⟨inside, entry⟩ := List.getElem?_eq_some_iff.mp found
  have le : l.findIdx Option.isSome ≤ j := by
    by_contra more
    have := List.not_of_lt_findIdx (Nat.lt_of_not_le more)
    simp [entry] at this
  have short : l.findIdx Option.isSome < l.length := by omega
  refine ⟨le, ?_, fun k less => ?_⟩
  · have some := List.findIdx_getElem (w := short)
    rw [List.getElem?_eq_getElem short]
    simpa [Option.isSome_iff_ne_none] using some
  · have none := List.not_of_lt_findIdx less
    rw [List.getElem?_eq_getElem (by omega)]
    simpa using none

theorem entry_cut (n : PrefixTree α) (c k : Nat) :
    (n.table.set (c - n.min) none)[k]?.join = (n.cut c).child (n.min + k) := by
  rw [cut, child_trim, child_eq, if_neg (by simp)]
  simp

theorem one_left (wf : n.Wf) (found : n.child c = some m) (two : n.live = 2) {x y : Nat}
    (left : (n.cut c).child x ≠ none) (other : (n.cut c).child y ≠ none) : x = y := by
  by_contra apart
  have := two_le_live (wf_cut wf found) other left apart
  simp only [cut, trim_live] at this
  omega

theorem keep_cut (wf : n.Wf) (found : n.child c = some m) (two : n.live = 2) {k : Nat}
    (there : (n.cut c).child (n.min + k) ≠ none) : keep
      { n with live := n.live - 1, table := n.table.set (c - n.min) none } k site =
        .ok (n.cut c) := by
  obtain ⟨m', here⟩ := Option.ne_none_iff_exists'.mp there
  refine keep_eq (m := m') (by simp only [entry_cut, here]) fun k' other => ?_
  simp only [entry_cut]
  by_contra another
  have := one_left wf found two another there
  omega

theorem compactLeft_eq (first : n.table[0]?.join = none) (more : 0 < j)
    (last : n.table[j]?.join ≠ none) (end_ : j + 1 = n.table.length) :
    compactLeft n site = .ok n.trim := by
  have behind : (n.table.drop 1)[j - 1]?.join ≠ none := by
    rwa [List.getElem?_drop, show 1 + (j - 1) = j by omega]
  obtain ⟨le, here, before⟩ := findIdx_spec behind
  simp only [compactLeft]
  rw [if_pos (by omega)]
  rw [List.getElem?_drop] at here
  rw [trim_between (i := 1 + (n.table.drop 1).findIdx Option.isSome) (j := j) (by omega)
    here last, List.take_of_length_le]
  · simp only [List.length_drop] at end_ ⊢
    omega
  · intro k less
    cases k with
    | zero => exact first
    | succ k =>
      have none := before k (by omega)
      rwa [List.getElem?_drop, Nat.add_comm] at none
  · intro k beyond
    rw [List.getElem?_eq_none (by omega)]
    rfl

theorem compactRight_eq (first : n.table[0]?.join ≠ none) (more : 0 < j)
    (last : n.table[j]?.join = none) (end_ : j + 1 = n.table.length) :
    compactRight n site = .ok n.trim := by
  have mirror (k : Nat) (inside : k < n.table.length) :
      n.table.reverse[k]?.join = n.table[n.table.length - 1 - k]?.join := by
    rw [List.getElem?_reverse inside]
  have behind : (n.table.reverse.drop 1)[j - 1]?.join ≠ none := by
    rw [List.getElem?_drop, mirror _ (by omega)]
    rwa [show n.table.length - 1 - (1 + (j - 1)) = 0 by omega]
  obtain ⟨le, here, before⟩ := findIdx_spec behind
  rw [List.getElem?_drop, mirror _ (by omega)] at here
  simp only [compactRight]
  rw [if_pos (by omega), trim_between (i := 0)
    (j := n.table.length - 1 - (1 + (n.table.reverse.drop 1).findIdx Option.isSome)) (by omega)
    first here (fun k less => absurd less (Nat.not_lt_zero k))]
  · simp only [Nat.sub_zero]
    congr 4
    omega
  · intro k beyond
    by_cases inside : k < n.table.length
    · by_cases same : k = j
      · rw [same, last]
      · have none := before (j - 1 - k) (by omega)
        rw [List.getElem?_drop, mirror _ (by omega)] at none
        rwa [show n.table.length - 1 - (1 + (j - 1 - k)) = k by omega] at none
    · rw [List.getElem?_eq_none (by omega)]
      rfl

theorem unchanged_eq (first : n.table[0]?.join ≠ none) (last : n.table[j]?.join ≠ none)
    (end_ : j + 1 = n.table.length) : n = n.trim := by
  rw [trim_between (Nat.zero_le j) first last (fun k less => absurd less (Nat.not_lt_zero k))]
  · cases n
    simp [end_]
  · intro k beyond
    rw [List.getElem?_eq_none (by omega)]
    rfl

theorem prune_eq {single : PrefixTree α → Nat → Except Fault (PrefixTree α)} (wf : n.Wf)
    (found : n.child c = some m)
    (one : 1 < n.table.length → n.live = 2 → single
      { n with live := n.live - 1, table := n.table.set (c - n.min) none } c = .ok (n.cut c)) :
    prune single site n c = .ok (n.cut c) := by
  obtain ⟨lower, upper⟩ := range_of_child (show n.child c ≠ none by simp [found])
  have filled : n.table ≠ [] := by
    intro empty
    simp [empty] at upper
    omega
  obtain ⟨first, last⟩ := wf.ends filled
  have head (other : n.min ≠ c) : (n.table.set (c - n.min) none)[0]?.join ≠ none := by
    rwa [entry_cut, child_cut found, if_neg (by omega)]
  have foot (other : n.min + n.table.length - 1 ≠ c) :
      (n.table.set (c - n.min) none)[n.table.length - 1]?.join ≠ none := by
    rwa [entry_cut, child_cut found, if_neg (by omega), ← Nat.add_sub_assoc (by omega)]
  have gone {k : Nat} (here : n.min + k = c) : (n.table.set (c - n.min) none)[k]?.join = none := by
    rw [entry_cut, child_cut found, if_pos here]
  simp only [prune]
  rw [if_neg (by simpa using filled)]
  split
  · rename_i size
    have live := live_of_single wf size
    obtain ⟨entry, table⟩ := List.length_eq_one_iff.mp size
    have place : c - n.min = 0 := by
      omega
    rw [if_pos live, cut]
    simp [trim, place, table, live]
  · rename_i several
    have size : 1 < n.table.length := by
      omega
    have two := live_of_several wf size
    rw [if_neg (by omega)]
    split
    · rename_i left
      exact one size (by omega)
    · have length : (n.table.set (c - n.min) none).length = n.table.length := List.length_set
      split
      · rename_i left
        exact compactLeft_eq (gone (by omega)) (j := n.table.length - 1) (by omega)
          (foot (by omega)) (by simp only [length]; omega)
      · rename_i notLeft
        split
        · rename_i right
          exact compactRight_eq (head (by omega)) (j := n.table.length - 1) (by omega)
            (gone (by omega)) (by simp only [length]; omega)
        · rename_i notRight
          exact congrArg Except.ok (unchanged_eq (head (by omega)) (j := n.table.length - 1)
            (foot (by omega)) (by simp only [length]; omega))

end TrieNode

/-! ## What the operations do to the counts -/

namespace Trie

open TrieNode

variable {n m : Trie} {c : Nat} {key : List UInt8}

theorem created_eq (wf : n.Wf) (byte : c < 256) :
    created n (create (extend n c) c) c = .ok (create (extend n c) c) := by
  unfold created
  rw [if_pos]
  cases found : n.child c with
  | some m => exact .inl rfl
  | none =>
    refine .inr ?_
    have inside := n.widen_range c
    have put := wf_put wf byte (wf_empty (α := UInt32))
    rw [if_pos found] at put
    have new : create (extend n c) c =
        { (n.widen c).put c .empty with live := n.live + 1 } := by
      unfold create
      rw [extend_eq, child_widen, found, widen_live]
      rfl
    rw [new]
    split
    · rename_i one
      exact live_of_single put one
    · rename_i several
      refine live_of_several put ?_
      simp only [PrefixTree.put, List.length_set] at several ⊢
      omega

theorem add_eq (wf : n.Wf) : add key n = .ok (n.find key + 1 == 1, n.grow (· + 1) key) := by
  induction key generalizing n with
  | nil => rfl
  | cons c key ih =>
    simp only [add, created_eq wf c.toNat_lt, ok_bind, child_create, ih (wf.getD _), put_create]
    rw [find_cons, grow_cons]

def decrease (v : UInt32) : UInt32 := if v = 0 then 0 else v - 1

theorem decrease_eq_zero {v : UInt32} : decrease v = 0 ↔ v = 0 ∨ v = 1 := by
  unfold decrease
  split
  · simp [*]
  · grind

theorem single_eq (wf : n.Wf) (found : n.child c = some m) (several : 1 < n.table.length)
    (two : n.live = 2) : single
      { n with live := n.live - 1, table := n.table.set (c - n.min) none } c = .ok (n.cut c) := by
  have left (x : Nat) (other : x ≠ c) (there : n.child x ≠ none) : (n.cut c).child x ≠ none := by
    rwa [child_cut found, if_neg other]
  obtain ⟨first, last⟩ := wf.ends (List.length_pos_iff.mp (by omega))
  simp only [single, List.length_set]
  split
  · refine keep_cut wf found two (left _ (by omega) ?_)
    rwa [show n.min + (n.table.length - 1) = n.min + n.table.length - 1 by omega]
  · rename_i notFirst
    have : c = n.min + n.table.length - 1 := by
      by_contra notLast
      have := one_left wf found two (left _ (Ne.symm notFirst) first) (left _ (Ne.symm notLast) last)
      omega
    rw [if_pos this]
    exact keep_cut wf found two (left _ (Ne.symm notFirst) first)

theorem rm_eq (wf : n.Wf) : rm key n = .ok (n.find key == 1, n.shrink decrease key) := by
  induction key generalizing n with
  | nil =>
    simp only [rm, shrink, find, decrease]
    split
    · rename_i zero
      cases n
      simp_all
    · congr 2
      rw [Bool.eq_iff_iff]
      simp only [beq_iff_eq]
      constructor
      · intro last
        rw [← UInt32.sub_add_cancel n.value 1, last]
        rfl
      · intro last
        rw [last]
        rfl
  | cons c key ih =>
    simp only [rm, shrink]
    cases found : n.child c.toNat with
    | none =>
      have : (default : UInt32) ≠ 1 := by decide
      simp [find, found, this]
    | some m =>
      have same : n.find (c :: key) = m.find key := by simp [find, found]
      simp only [ih (wf.child found), ok_bind, same]
      split
      · rw [prune_eq wf found (single_eq wf found)]
        rfl
      · rfl

theorem check_eq (data : List UInt8) (n : Trie) :
    check data n = true ↔ ∃ topic, topic <+: data ∧ n.find topic ≠ 0 := by
  induction data generalizing n with
  | nil => simp [check, find]
  | cons c data ih =>
    rw [check]
    by_cases here : n.value = 0
    · have below : (match n.child c.toNat with
          | none => false
          | some m => check data m) = true ↔
          ∃ topic, topic <+: data ∧ n.find (c :: topic) ≠ 0 := by
        simp only [find_cons]
        cases n.child c.toNat with
        | none => simp [show (default : UInt32) = 0 from rfl]
        | some m => exact ih m
      rw [if_neg (by simp [here]), below]
      constructor
      · rintro ⟨topic, before, found⟩
        exact ⟨c :: topic, by simpa using before, found⟩
      · rintro ⟨topic, before, found⟩
        cases topic with
        | nil => exact absurd here found
        | cons b topic =>
          obtain ⟨rfl, rest⟩ := List.cons_prefix_cons.mp before
          exact ⟨topic, rest, found⟩
    · rw [if_pos (by simp [here])]
      simp only [true_iff]
      exact ⟨[], List.nil_prefix, here⟩

theorem mem_apply (wf : n.Wf) : key ∈ apply n ↔ n.find key ≠ 0 := by
  simp only [apply, List.mem_map, Prod.exists, exists_and_right, exists_eq_right]
  constructor
  · rintro ⟨v, there⟩
    obtain ⟨useful, rfl⟩ := (mem_entries wf).mp there
    exact useful
  · exact fun found => ⟨_, (mem_entries wf).mpr ⟨found, rfl⟩⟩

/-! ## A multiset of topics -/

/-- A trie, and the topics that were added to it and not removed. -/
structure Bag where
  trie : Trie := .empty
  topics : List (List UInt8) := []

inductive Bag.Action where
  | add (topic : List UInt8)
  | rm (topic : List UInt8)

namespace Bag

def step (b : Bag) : Action → Except Fault Bag
  | .add topic => do
      let (_, trie) ← add topic b.trie
      .ok { trie := trie, topics := topic :: b.topics }
  | .rm topic => do
      let (_, trie) ← rm topic b.trie
      .ok { trie := trie, topics := b.topics.erase topic }

def Countable (b : Bag) : Action → Prop
  | .add topic => b.topics.count topic + 1 < 2 ^ 32
  | .rm _ => True

instance (b : Bag) (a : Action) : Decidable (b.Countable a) := by
  cases a <;> dsimp only [Countable] <;> infer_instance

variable {b : Bag}

theorem toNat_decrease (n : UInt32) : (decrease n).toNat = n.toNat - 1 := by
  rw [decrease]
  split
  case isTrue none =>
    simp_all
  case isFalse some =>
    have positive : 1 ≤ n := by grind
    rw [UInt32.toNat_sub_of_le _ _ positive]
    rfl

structure Counts (b : Bag) : Prop where
  wf : b.trie.Wf
  find : ∀ topic, (b.trie.find topic).toNat = b.topics.count topic

theorem Counts.step {a : Action} {b' : Bag} (counts : b.Counts) (countable : b.Countable a)
    (taken : b.step a = .ok b') : b'.Counts := by
  cases a with
  | add topic =>
    obtain ⟨⟨_, trie⟩, added, ⟨⟩⟩ := bind_ok.mp taken
    rw [add_eq counts.wf] at added
    cases added
    refine ⟨wf_grow counts.wf, fun key => ?_⟩
    have found := counts.find key
    rw [find_grow, List.count_cons]
    by_cases same : key = topic
    · subst same
      have room : b.topics.count key + 1 < 2 ^ 32 := countable
      simp [UInt32.toNat_add, found]
      omega
    · simp [same, Ne.symm same, found]
  | rm topic =>
    obtain ⟨⟨_, trie⟩, removed, ⟨⟩⟩ := bind_ok.mp taken
    rw [rm_eq counts.wf] at removed
    cases removed
    refine ⟨wf_shrink counts.wf, fun key => ?_⟩
    have found := counts.find key
    rw [find_shrink counts.wf rfl, List.count_erase]
    by_cases same : key = topic
    · subst same
      simp [toNat_decrease, found]
    · simp [same, Ne.symm same, found]

theorem Counts.find_eq_zero (counts : b.Counts) (topic : List UInt8) :
    b.trie.find topic = 0 ↔ topic ∉ b.topics := by
  rw [← List.count_eq_zero, ← counts.find, ← UInt32.toNat_inj]
  rfl

/-- While no topic is there 2^32 times, the trie is a multiset of topics, and no assertion
    fails. -/
theorem is_multiset (reached : Reaches step Countable {} b) :
    (∀ topic, ∃ n, add topic b.trie = .ok (decide (topic ∉ b.topics), n)) ∧
    (∀ topic, ∃ n, rm topic b.trie = .ok (decide (b.topics.count topic = 1), n)) ∧
    (∀ data, check data b.trie = true ↔ ∃ topic ∈ b.topics, topic <+: data) ∧
    (apply b.trie).Nodup ∧ (∀ topic, topic ∈ apply b.trie ↔ topic ∈ b.topics) ∧ b.trie.Wf := by
  have counts : b.Counts := by
    refine reached.invariant ⟨wf_empty, fun topic => ?_⟩ fun _ _ _ => Counts.step
    rw [find_empty]
    rfl
  have present (topic : List UInt8) : b.trie.find topic ≠ 0 ↔ topic ∈ b.topics := by
    rw [ne_eq, counts.find_eq_zero, not_not]
  refine ⟨fun topic => ?_, fun topic => ?_, fun data => ?_, ?_, fun topic => ?_, counts.wf⟩
  · have new : (b.trie.find topic + 1 == 1) = decide (topic ∉ b.topics) := by
      rw [Bool.eq_iff_iff, decide_eq_true_iff, ← counts.find_eq_zero]
      grind
    exact ⟨_, new ▸ add_eq counts.wf⟩
  · have last : (b.trie.find topic == 1) = decide (b.topics.count topic = 1) := by
      rw [Bool.eq_iff_iff, decide_eq_true_iff, ← counts.find, beq_iff_eq, ← UInt32.toNat_inj]
      rfl
    exact ⟨_, last ▸ rm_eq counts.wf⟩
  · simp only [check_eq, present, and_comm]
  · exact nodup_entries counts.wf
  · rw [mem_apply counts.wf, present]

theorem is_multiset_twice : ∃ b : Bag, Reaches step Countable {} b ∧ b.topics = [[2], [1]] ∧
    (∃ n, rm [1] b.trie = .ok (true, n)) ∧ check [1, 5] b.trie = true ∧ [2] ∈ apply b.trie := by
  obtain ⟨b, reached, topics⟩ := exists_reaches step Countable {}
    [.add [1], .add [1], .add [2], .rm [1]] (fun b => b.topics = [[2], [1]]) (by decide +kernel)
  obtain ⟨-, removed, checked, -, applied, -⟩ := is_multiset reached
  have last := removed [1]
  rw [topics] at last
  exact ⟨b, reached, topics, last, (checked _).mpr ⟨[1], by simp [topics], by simp⟩,
    (applied _).mpr (by simp [topics])⟩

theorem counted_modulo (k : Nat) : ∃ b : Bag, Reaches step (fun _ _ => True) {} b ∧
    b.trie.value = UInt32.ofNat k ∧ b.topics = List.replicate k [] := by
  induction k with
  | zero => exact ⟨_, .start, rfl, rfl⟩
  | succ k ih =>
    obtain ⟨b, reached, counted, topics⟩ := ih
    refine ⟨_, reached.next (a := Action.add []) trivial rfl, ?_, ?_⟩
    · rw [UInt32.ofNat_add, ← counted]
      rfl
    · rw [topics]
      rfl

theorem is_lost_when_count_wraps :
    ∃ b : Bag, Reaches step (fun _ _ => True) {} b ∧ [] ∈ b.topics ∧ check [] b.trie = false := by
  obtain ⟨b, reached, counted, topics⟩ := counted_modulo (2 ^ 32)
  refine ⟨b, reached, ?_, ?_⟩
  · rw [topics, List.mem_replicate]
    exact ⟨by decide, rfl⟩
  · rw [check, counted]
    rfl

end Bag

end Trie

end Zmq
