import Zmq.Pattern.Trie

/-! # The subscriptions of a publisher

`generic_mtrie_t` maps each topic to the set of pipes that subscribed to it. A node without
subscribers has no set. The source walks the tree with a stack of its own where removal needs
the way back; here that is recursion.
-/

namespace Zmq

open Lib

/-- `generic_mtrie_t<pipe_t>`; the value of a node is `_pipes`, whose items are ordered by their
    addresses. -/
abbrev Mtrie (ι : Type) := PrefixTree (Option (List ι))

inductive RmResult where
  | notFound
  | lastValueRemoved
  | valuesRemain
  deriving Repr, DecidableEq

namespace Mtrie

open TrieNode

variable {ι : Type} [LinearOrder ι]

instance decidableMem (pipe : ι) (pipes : List ι) : Decidable (pipe ∈ pipes) := inferInstance

def insertPipe (pipe : ι) (pipes : List ι) : List ι :=
  if pipe ∈ pipes then pipes else pipes.orderedInsert (· ≤ ·) pipe

def add (pipe : ι) : List UInt8 → Mtrie ι → Except Fault (Bool × Mtrie ι)
  | [], n =>
    .ok (n.value.isNone, { n with value := some (insertPipe pipe (n.value.getD [])) })
  | c :: rest, n =>
    let n := create (extend n c.toNat) c.toNat
    match n.child c.toNat with
    | none => .error .nullPointer
    | some m => do
        let (isNew, m) ← add pipe rest m
        .ok (isNew, n.put c.toNat m)

def single (n : Mtrie ι) (_ : Nat) : Except Fault (Mtrie ι) :=
  keep n (n.table.findIdx Option.isSome) .mtrieRm

def rm (pipe : ι) : List UInt8 → Mtrie ι → Except Fault (RmResult × Mtrie ι)
  | [], n =>
    match n.value with
    | none => .ok (.notFound, n)
    | some pipes =>
      if pipes.erase pipe = [] then
        if pipe ∈ pipes then .ok (.lastValueRemoved, { n with value := none })
        else .error (.assertion .mtrieRm)
      else .ok (if pipe ∈ pipes then .valuesRemain else .notFound,
        { n with value := some (pipes.erase pipe) })
  | c :: rest, n =>
    match n.child c.toNat with
    | none => .ok (.notFound, n)
    | some m => do
        let (result, m) ← rm pipe rest m
        if m.redundant then do
          let n ← prune single .mtrieRm n c.toNat
          .ok (result, n)
        else .ok (result, n.put c.toNat m)

def without (pipe : ι) : Option (List ι) → Option (List ι)
  | none => none
  | some pipes =>
    if pipe ∈ pipes ∧ pipes.erase pipe = [] then none else some (pipes.erase pipe)

/-- Whether the function is called for a node, of which the pipe is removed. -/
def notifies (pipe : ι) (callOnUniq : Bool) : Option (List ι) → Bool
  | none => false
  | some pipes => decide (pipe ∈ pipes) && (!callOnUniq || (pipes.erase pipe).isEmpty)

/-- Resize the table, or free it, once all children were visited. -/
def resize (n : Mtrie ι) (newMin newMax : Nat) : Except Fault (Mtrie ι) :=
  match n.table with
  | [] => .ok n
  | [some _] => .ok n
  | [none] => if n.live = 0 then .ok { n with table := [] } else .error (.assertion .mtrieRm)
  | _ =>
    if n.live = 0 then .ok { n with table := [] }
    else if n.live = 1 then
      if newMin = newMax ∧ n.min ≤ newMin ∧ newMin < n.min + n.table.length then
        keep n (newMin - n.min) .mtrieRm
      else .error (.assertion .mtrieRm)
    else if n.min < newMin ∨ newMax < n.min + n.table.length - 1 then
      if newMin < newMax ∧ n.min ≤ newMin ∧ newMax ≤ n.min + n.table.length - 1 ∧
          newMax + 1 - newMin < n.table.length then
        .ok { n with
          min := newMin
          table := (n.table.drop (newMin - n.min)).take (newMax + 1 - newMin) }
      else .error (.assertion .mtrieRm)
    else .ok n

structure Visit (ι : Type) where
  calls : List (List UInt8)
  table : List (Option (Mtrie ι))
  live : Nat
  newMin : Nat
  newMax : Nat

mutual

/-- `rm` for all topics, with the prefixes its function is called with. -/
def rmValue (pipe : ι) (callOnUniq : Bool) (buff : List UInt8) :
    Mtrie ι → Except Fault (List (List UInt8) × Mtrie ι)
  | ⟨pipes, min, live, table⟩ => do
      let v ← rmChildren pipe callOnUniq buff min live (min + table.length - 1) min table
      let n ← resize
        { value := without pipe pipes, min := min, live := v.live, table := v.table }
        v.newMin v.newMax
      .ok ((if notifies pipe callOnUniq pipes then [buff] else []) ++ v.calls, n)

def rmChildren (pipe : ι) (callOnUniq : Bool) (buff : List UInt8) (c live newMin newMax : Nat) :
    List (Option (Mtrie ι)) → Except Fault (Visit ι)
  | [] => .ok { calls := [], table := [], live := live, newMin := newMin, newMax := newMax }
  | none :: rest => do
      let v ← rmChildren pipe callOnUniq buff (c + 1) live newMin newMax rest
      .ok { v with table := none :: v.table }
  | some m :: rest => do
      let (calls, m) ← rmValue pipe callOnUniq (buff ++ [.ofNat c]) m
      if m.redundant then
        if live = 0 then .error (.assertion .mtrieRm)
        else do
          let v ← rmChildren pipe callOnUniq buff (c + 1) (live - 1) newMin newMax rest
          .ok { v with calls := calls ++ v.calls, table := none :: v.table }
      else do
        let v ← rmChildren pipe callOnUniq buff (c + 1) live (if c < newMin then c else newMin)
          (if newMax < c then c else newMax) rest
        .ok { v with calls := calls ++ v.calls, table := some m :: v.table }

end

def matchAll (data : List UInt8) (n : Mtrie ι) : List ι := (n.path data).flatMap (·.getD [])

/-! ## What the operations do to the sets -/

open PrefixTree

variable {n m : Mtrie ι} {key : List UInt8} {pipe p : ι} {c : Nat}

theorem mem_insertPipe (pipes : List ι) : p ∈ insertPipe pipe pipes ↔ p = pipe ∨ p ∈ pipes := by
  unfold insertPipe
  split
  · rename_i there
    constructor
    · exact .inr
    · rintro (rfl | old)
      · exact there
      · exact old
  · exact List.mem_orderedInsert _

theorem add_eq (wf : n.Wf) : add pipe key n =
    .ok ((n.find key).isNone, n.grow (fun v => some (insertPipe pipe (v.getD []))) key) := by
  induction key generalizing n with
  | nil => rfl
  | cons c key ih =>
    simp only [add, child_create, ih (wf.getD _), ok_bind, put_create]
    rw [find_cons, grow_cons]

omit [LinearOrder ι] in
theorem single_eq (wf : n.Wf) (found : n.child c = some m) (several : 1 < n.table.length)
    (two : n.live = 2) : single
      { n with live := n.live - 1, table := n.table.set (c - n.min) none } c = .ok (n.cut c) := by
  obtain ⟨first, last⟩ := wf.ends (List.length_pos_iff.mp (by omega))
  have left : ∃ k, (n.cut c).child (n.min + k) ≠ none := by
    by_cases atFirst : c = n.min
    · refine ⟨n.table.length - 1, ?_⟩
      rw [child_cut found, if_neg (by omega)]
      rwa [show n.min + (n.table.length - 1) = n.min + n.table.length - 1 by omega]
    · refine ⟨0, ?_⟩
      rwa [child_cut found, if_neg (by omega)]
  obtain ⟨k, there⟩ := left
  rw [← entry_cut] at there
  have searched := (findIdx_spec there).2.1
  rw [entry_cut] at searched
  exact keep_cut wf found two searched

def removal (pipe : ι) : Option (List ι) → RmResult
  | none => .notFound
  | some pipes =>
    if pipe ∈ pipes then if pipes.erase pipe = [] then .lastValueRemoved else .valuesRemain
    else .notFound

theorem rm_eq (wf : n.Wf) (proper : n.find key ≠ some []) :
    rm pipe key n = .ok (removal pipe (n.find key), n.shrink (without pipe) key) := by
  induction key generalizing n with
  | nil =>
    simp only [rm, shrink, find] at proper ⊢
    cases held : n.value with
    | none =>
      cases n
      simp_all [removal, without]
    | some pipes =>
      have filled : pipes ≠ [] := by
        rintro rfl
        exact proper held
      by_cases there : pipe ∈ pipes
      · by_cases last : pipes.erase pipe = []
        · simp [removal, without, there, last]
        · simp [removal, without, last]
      · simp [removal, without, List.erase_of_not_mem there, filled]
  | cons c key ih =>
    simp only [rm, shrink]
    cases found : n.child c.toNat with
    | none => simp [find, found, removal, show (default : Option (List ι)) = none from rfl]
    | some m =>
      have same : n.find (c :: key) = m.find key := by simp [find, found]
      rw [same] at proper
      simp only [ih (wf.child found) proper, ok_bind, same]
      split
      · rw [prune_eq wf found (single_eq wf found)]
        rfl
      · rfl

/-! ## Removal of a pipe -/

/-- The smallest and the largest character of a child that is left, or the values the search
    started with. -/
structure Bounds (c newMin newMax : Nat) (table : List (Option (Mtrie ι))) (low high : Nat) :
    Prop where
  low_le : low ≤ newMin
  le_high : newMax ≤ high
  inside : ∀ i, table[i]?.join ≠ none → low ≤ c + i ∧ c + i ≤ high
  low_eq : low = newMin ∨ ∃ i, table[i]?.join ≠ none ∧ low = c + i
  high_eq : high = newMax ∨ ∃ i, table[i]?.join ≠ none ∧ high = c + i

namespace Bounds

variable {newMin newMax low high : Nat} {table : List (Option (Mtrie ι))}

section

omit [LinearOrder ι]

theorem nil (c newMin newMax : Nat) :
    Bounds c newMin newMax ([] : List (Option (Mtrie ι))) newMin newMax :=
  ⟨Nat.le_refl _, Nat.le_refl _, by simp, .inl rfl, .inl rfl⟩

theorem later {entry : Option (Mtrie ι)} {x : Nat}
    (there : ∃ i, table[i]?.join ≠ none ∧ x = c + 1 + i) :
    ∃ i, (entry :: table)[i]?.join ≠ none ∧ x = c + i := by
  obtain ⟨i, found, same⟩ := there
  exact ⟨i + 1, by simpa using found, by omega⟩

theorem cons_none (bounds : Bounds (c + 1) newMin newMax table low high) :
    Bounds c newMin newMax (none :: table) low high where
  low_le := bounds.low_le
  le_high := bounds.le_high
  inside i there := by
    cases i with
    | zero => exact absurd rfl there
    | succ i =>
      have := bounds.inside i (by simpa using there)
      omega
  low_eq := bounds.low_eq.imp_right later
  high_eq := bounds.high_eq.imp_right later

theorem cons_some (bounds : Bounds (c + 1) (if c < newMin then c else newMin)
    (if newMax < c then c else newMax) table low high) :
    Bounds c newMin newMax (some m :: table) low high := by
  have first : (some m :: table)[0]?.join ≠ none := by simp
  have low_le := bounds.low_le
  have le_high := bounds.le_high
  refine ⟨?_, ?_, fun i there => ?_, ?_, ?_⟩
  · split at low_le <;> omega
  · split at le_high <;> omega
  · cases i with
    | zero =>
      constructor
      · split at low_le <;> omega
      · split at le_high <;> omega
    | succ i =>
      have := bounds.inside i (by simpa using there)
      omega
  · rcases bounds.low_eq with same | later'
    · split at same
      · exact .inr ⟨0, first, same⟩
      · exact .inl same
    · exact .inr (later later')
  · rcases bounds.high_eq with same | later'
    · split at same
      · exact .inr ⟨0, first, same⟩
      · exact .inl same
    · exact .inr (later later')

theorem ends {i : Nat} (bounds : Bounds c (c + table.length - 1) c table low high)
    (there : table[i]?.join ≠ none) :
    ∃ first last, low = c + first ∧ high = c + last ∧ first ≤ last ∧ last < table.length ∧
      table[first]?.join ≠ none ∧ table[last]?.join ≠ none ∧
      (∀ k, k < first → table[k]?.join = none) ∧ ∀ k, last < k → table[k]?.join = none := by
  have within (k : Nat) (some : table[k]?.join ≠ none) : k < table.length := by
    by_contra beyond
    simp [List.getElem?_eq_none (Nat.le_of_not_lt beyond)] at some
  have here := bounds.inside i there
  have := within i there
  have low_eq : ∃ k, table[k]?.join ≠ none ∧ low = c + k := by
    rcases bounds.low_eq with same | found
    · exact ⟨i, there, by omega⟩
    · exact found
  have high_eq : ∃ k, table[k]?.join ≠ none ∧ high = c + k := by
    rcases bounds.high_eq with same | found
    · exact ⟨i, there, by omega⟩
    · exact found
  obtain ⟨first, start, rfl⟩ := low_eq
  obtain ⟨last, stop, rfl⟩ := high_eq
  refine ⟨first, last, rfl, rfl, by omega, within last stop, start, stop, fun k less => ?_,
    fun k more => ?_⟩
  · by_contra some
    have := bounds.inside k some
    omega
  · by_contra some
    have := bounds.inside k some
    omega

end

end Bounds

def notified (pipe : ι) (callOnUniq : Bool) (buff : List UInt8)
    (entries : List (List UInt8 × Option (List ι))) : List (List UInt8) :=
  (entries.filter fun e => notifies pipe callOnUniq e.2).map fun e => buff ++ e.1

theorem rmChildren_eq {pipe : ι} {callOnUniq : Bool} {table : List (Option (Mtrie ι))}
    (buff : List UInt8) (c live newMin newMax : Nat)
    (below : ∀ m, some m ∈ table → ∀ buff, rmValue pipe callOnUniq buff m =
      .ok (notified pipe callOnUniq buff m.entries, m.sweep (without pipe)))
    (enough : table.countP Option.isSome ≤ live) :
    ∃ v, rmChildren pipe callOnUniq buff c live newMin newMax table = .ok v ∧
      v.calls = notified pipe callOnUniq buff (entriesTable c table) ∧
      v.table = sweepTable (without pipe) table ∧
      v.live + table.countP Option.isSome = live + v.table.countP Option.isSome ∧
      Bounds c newMin newMax v.table v.newMin v.newMax := by
  induction table generalizing c live newMin newMax with
  | nil =>
    refine ⟨_, rfl, ?_, ?_, rfl, .nil ..⟩
    · simp [notified, entriesTable]
    · simp [sweepTable]
  | cons entry rest ih =>
    have others := fun m member => below m (.tail _ member)
    cases entry with
    | none =>
      obtain ⟨v, done, calls, table, counted, bounds⟩ :=
        ih (c + 1) live newMin newMax others (by simpa using enough)
      refine ⟨_, by rw [rmChildren, done]; rfl, ?_, ?_, ?_, bounds.cons_none⟩
      · simp [calls, entriesTable]
      · simp [table, sweepTable]
      · simpa using counted
    | some m =>
      simp only [List.countP_cons, Option.isSome_some, if_true] at enough
      have first := below m (.head _) (buff ++ [.ofNat c])
      have listed : notified pipe callOnUniq buff (entriesTable c (some m :: rest)) =
          notified pipe callOnUniq (buff ++ [.ofNat c]) m.entries ++
            notified pipe callOnUniq buff (entriesTable (c + 1) rest) := by
        simp [notified, entriesTable, List.filter_map, Function.comp_def]
      by_cases useless : (m.sweep (without pipe)).redundant
      · obtain ⟨v, done, calls, table, counted, bounds⟩ := ih (c + 1) (live - 1) newMin
          newMax others (by omega)
        refine ⟨{ v with
            calls := notified pipe callOnUniq (buff ++ [.ofNat c]) m.entries ++ v.calls
            table := none :: v.table }, ?_, ?_, ?_, ?_, bounds.cons_none⟩
        · simp only [rmChildren, first, ok_bind, useless, if_true, done]
          rw [if_neg (by omega)]
        · rw [listed, calls]
        · simp [table, sweepTable, useless]
        · simp only [List.countP_cons, Option.isSome_some, Option.isSome_none, if_true,
            Bool.false_eq_true, if_false]
          omega
      · obtain ⟨v, done, calls, table, counted, bounds⟩ := ih (c + 1) live
          (if c < newMin then c else newMin) (if newMax < c then c else newMax) others
          (by omega)
        refine ⟨{ v with
            calls := notified pipe callOnUniq (buff ++ [.ofNat c]) m.entries ++ v.calls
            table := some (m.sweep (without pipe)) :: v.table }, ?_, ?_, ?_, ?_,
          bounds.cons_some⟩
        · simp only [rmChildren, first, ok_bind, useless, done]
          rfl
        · rw [listed, calls]
        · simp [table, sweepTable, useless]
        · simp only [List.countP_cons, Option.isSome_some]
          omega

omit [LinearOrder ι] in
theorem resize_eq {low high : Nat} (live : n.live = n.table.countP Option.isSome)
    (bounds : Bounds n.min (n.min + n.table.length - 1) n.min n.table low high) :
    resize n low high = .ok n.trim := by
  have vacant (none_left : n.live = 0) : n.trim = { n with table := [] } := by
    refine if_pos (List.all_eq_true.mpr fun entry member => ?_)
    rw [live, List.countP_eq_zero] at none_left
    simpa using none_left entry member
  have narrow (some_left : n.live ≠ 0) : ∃ i : Nat, n.table[i]?.join ≠ none := by
    rw [live, ← Nat.pos_iff_ne_zero, List.countP_pos_iff] at some_left
    obtain ⟨entry, member, some⟩ := some_left
    obtain ⟨i, found⟩ := List.mem_iff_getElem?.mp member
    exact ⟨i, by simpa [found, Option.isSome_iff_ne_none] using some⟩
  unfold resize
  split
  · rename_i empty
    rw [vacant (by simp [live, empty])]
    cases n
    simp_all
  · rename_i m one
    refine congrArg Except.ok (unchanged_eq (j := 0) ?_ ?_ ?_)
    · simp [one]
    · simp [one]
    · simp [one]
  · rename_i one
    have zero : n.live = 0 := by simp [live, one]
    rw [if_pos zero, vacant zero]
  · split
    · rename_i zero
      rw [vacant zero]
    · rename_i some_left
      obtain ⟨i, there⟩ := narrow some_left
      obtain ⟨first, last, rfl, rfl, le, inside, start, stop, before, after⟩ := bounds.ends there
      have trimmed := trim_between le start stop before after
      split
      · rename_i one
        obtain rfl : first = last := by
          by_contra apart
          have := two_le_countP start stop apart
          omega
        obtain ⟨m, here⟩ := Option.ne_none_iff_exists'.mp start
        rw [if_pos (by omega), Nat.add_sub_cancel_left]
        refine keep_eq here fun k other => ?_
        rcases Nat.lt_or_gt_of_ne other with less | more
        · exact before k less
        · exact after k more
      · have apart : first ≠ last := by
          rintro rfl
          have counted := n.trim_pads.countP
          have short := List.countP_le_length (p := Option.isSome) (l := n.trim.table)
          rw [trimmed] at short counted
          simp only [List.length_take] at short counted
          omega
        split
        · rename_i narrower
          rw [if_pos (by omega), trimmed, Nat.add_sub_cancel_left,
            show n.min + last + 1 - (n.min + first) = last + 1 - first by omega]
        · rename_i same
          obtain rfl : first = 0 := by omega
          exact congrArg Except.ok (unchanged_eq start stop (by omega))

theorem rmValue_eq (wf : n.Wf) (pipe : ι) (callOnUniq : Bool) (buff : List UInt8) :
    rmValue pipe callOnUniq buff n =
      .ok (notified pipe callOnUniq buff n.entries, n.sweep (without pipe)) := by
  induction n using children_induction generalizing buff with
  | step n ih =>
    obtain ⟨value, min, live, table⟩ := n
    obtain ⟨count, fits, tight, children⟩ := wf
    simp only at count fits children ih
    obtain ⟨v, done, calls, swept, counted, bounds⟩ := rmChildren_eq buff min live
      (min + table.length - 1) min (fun m member buff => ih m member (children m member) buff)
      (Nat.le_of_eq count.symm)
    have length : v.table.length = table.length := by simp [swept, sweepTable_eq]
    have resized : resize
        { value := without pipe value, min := min, live := v.live, table := v.table } v.newMin
        v.newMax = .ok (trim
          { value := without pipe value, min := min, live := v.live, table := v.table }) :=
      resize_eq (by simp only; omega) (by simpa only [length] using bounds)
    simp only [rmValue, done, ok_bind, resized]
    have left : v.live = (sweepTable (without pipe) table).countP Option.isSome := by
      rw [← swept]
      omega
    rw [sweep_eq, entries_eq, left, swept, calls]
    by_cases default_ : value = none
    · simp [default_, notifies, show (default : Option (List ι)) = none from rfl]
    · simp only [notified, show (default : Option (List ι)) = none from rfl, default_, if_false,
        List.singleton_append, List.filter_cons]
      split <;> simp

/-! ## A map from topics to sets of pipes -/

def subscribers (n : Mtrie ι) (topic : List UInt8) : List ι := (n.find topic).getD []

omit [LinearOrder ι] in
@[simp] theorem subscribers_empty (topic : List UInt8) :
    subscribers (.empty : Mtrie ι) topic = [] := by
  rw [subscribers, find_empty]
  rfl

/-- Tables are narrow, no set is empty and no pipe is in a set twice. -/
structure Ok (n : Mtrie ι) : Prop where
  wf : n.Wf
  proper : ∀ topic, n.find topic ≠ some []
  nodup : ∀ topic, (n.subscribers topic).Nodup

omit [LinearOrder ι] in
theorem Ok.empty : Ok (.empty : Mtrie ι) where
  wf := wf_empty
  proper topic := by
    rw [find_empty]
    nofun
  nodup topic := by
    rw [subscribers_empty]
    exact List.nodup_nil

omit [LinearOrder ι] in
theorem Ok.find_eq (ok : n.Ok) (topic : List UInt8) : n.find topic = none ∧ n.subscribers topic = [] ∨
    n.find topic = some (n.subscribers topic) ∧ n.subscribers topic ≠ [] := by
  unfold subscribers
  cases found : n.find topic with
  | none => exact .inl ⟨rfl, rfl⟩
  | some pipes =>
    refine .inr ⟨rfl, ?_⟩
    rintro rfl
    exact ok.proper topic found

theorem nodup_insertPipe {pipes : List ι} (nodup : pipes.Nodup) : (insertPipe pipe pipes).Nodup := by
  unfold insertPipe
  split
  · exact nodup
  · rename_i new
    exact (List.perm_orderedInsert _ _ _).nodup_iff.mpr (List.nodup_cons.mpr ⟨new, nodup⟩)

theorem getD_without (v : Option (List ι)) : (without pipe v).getD [] = (v.getD []).erase pipe := by
  cases v with
  | none => rfl
  | some pipes =>
    simp only [without, Option.getD_some]
    split
    · rename_i last
      rw [last.2]
      rfl
    · rfl

theorem without_proper {v : Option (List ι)} (proper : v ≠ some []) : without pipe v ≠ some [] := by
  cases v with
  | none => nofun
  | some pipes =>
    simp only [without]
    split
    · nofun
    · rename_i left
      intro empty
      have empty := Option.some.inj empty
      refine left ⟨?_, empty⟩
      by_contra there
      rw [List.erase_of_not_mem there] at empty
      exact proper (congrArg some empty)

theorem add_spec (ok : n.Ok) (pipe : ι) (key : List UInt8) :
    ∃ n', add pipe key n = .ok (decide (n.subscribers key = []), n') ∧ n'.Ok ∧
      ∀ topic p, p ∈ n'.subscribers topic ↔ p ∈ n.subscribers topic ∨ topic = key ∧ p = pipe := by
  have found (topic : List UInt8) : find topic
      (n.grow (fun v => some (insertPipe pipe (v.getD []))) key) =
        if topic = key then some (insertPipe pipe (n.subscribers key)) else n.find topic :=
    find_grow ..
  refine ⟨n.grow (fun v => some (insertPipe pipe (v.getD []))) key, ?_,
    ⟨wf_grow ok.wf, fun topic => ?_, fun topic => ?_⟩, fun topic p => ?_⟩
  · rw [add_eq ok.wf]
    rcases ok.find_eq key with ⟨none, empty⟩ | ⟨some, filled⟩
    · simp [none, empty]
    · simp [some, filled]
  · rw [found]
    split
    · intro empty
      have member : pipe ∈ insertPipe pipe (n.subscribers key) := (mem_insertPipe _).mpr (.inl rfl)
      rw [Option.some.inj empty] at member
      cases member
    · exact ok.proper topic
  · rw [subscribers, found]
    split
    · exact nodup_insertPipe (ok.nodup key)
    · exact ok.nodup topic
  · rw [subscribers, found]
    split
    · rename_i same
      simp [mem_insertPipe, same, or_comm]
    · rename_i other
      simp [subscribers, other]

theorem rm_spec (ok : n.Ok) (pipe : ι) (key : List UInt8) :
    ∃ result n', rm pipe key n = .ok (result, n') ∧ n'.Ok ∧
      (∀ topic p, p ∈ n'.subscribers topic ↔
        p ∈ n.subscribers topic ∧ ¬ (topic = key ∧ p = pipe)) ∧
      (result = .notFound ↔ pipe ∉ n.subscribers key) ∧
      (result = .valuesRemain ↔ pipe ∈ n.subscribers key ∧ n'.subscribers key ≠ []) := by
  have found (topic : List UInt8) : find topic (n.shrink (without pipe) key) =
      if topic = key then without pipe (n.find key) else n.find topic :=
    find_shrink ok.wf rfl topic
  have held (topic : List UInt8) : subscribers (n.shrink (without pipe) key) topic =
      if topic = key then (n.subscribers key).erase pipe else n.subscribers topic := by
    rw [subscribers, found]
    split
    · exact getD_without _
    · rfl
  refine ⟨_, _, rm_eq ok.wf (ok.proper key), ⟨wf_shrink ok.wf, fun topic => ?_,
    fun topic => ?_⟩, fun topic p => ?_, ?_, ?_⟩
  · rw [found]
    split
    · exact without_proper (ok.proper key)
    · exact ok.proper topic
  · rw [held]
    split
    · exact (ok.nodup key).erase pipe
    · exact ok.nodup topic
  · rw [held]
    split
    · rename_i same
      simp [(ok.nodup key).mem_erase_iff, same, and_comm]
    · rename_i other
      simp [other]
  · rcases ok.find_eq key with ⟨none, empty⟩ | ⟨some, filled⟩
    · simp [none, empty, removal]
    · simp only [some, removal]
      split
      · rename_i there
        split <;> simp [there]
      · rename_i absent
        simp [absent]
  · rw [held, if_pos rfl]
    rcases ok.find_eq key with ⟨none, empty⟩ | ⟨some, filled⟩
    · simp [none, empty, removal]
    · simp only [some, removal]
      split
      · rename_i there
        split <;> simp_all
      · rename_i absent
        simp [absent]

theorem rmValue_spec (ok : n.Ok) (pipe : ι) (callOnUniq : Bool) :
    ∃ calls n', rmValue pipe callOnUniq [] n = .ok (calls, n') ∧ n'.Ok ∧
      (∀ topic p, p ∈ n'.subscribers topic ↔ p ∈ n.subscribers topic ∧ p ≠ pipe) ∧
      calls.Nodup ∧ ∀ topic, topic ∈ calls ↔ pipe ∈ n.subscribers topic ∧
        (callOnUniq = true → n'.subscribers topic = []) := by
  have found (topic : List UInt8) : find topic (n.sweep (without pipe)) =
      without pipe (n.find topic) := find_sweep ok.wf rfl topic
  have held (topic : List UInt8) : subscribers (n.sweep (without pipe)) topic =
      (n.subscribers topic).erase pipe := by
    rw [subscribers, found]
    exact getD_without _
  refine ⟨_, _, rmValue_eq ok.wf pipe callOnUniq [], ⟨wf_sweep ok.wf, fun topic => ?_,
    fun topic => ?_⟩, fun topic p => ?_, ?_, fun topic => ?_⟩
  · rw [found]
    exact without_proper (ok.proper topic)
  · rw [held]
    exact (ok.nodup topic).erase pipe
  · rw [held]
    simp [(ok.nodup topic).mem_erase_iff, and_comm]
  · simp only [notified]
    exact (nodup_entries ok.wf).sublist (List.filter_sublist.map _)
  · rw [held]
    simp only [notified, List.nil_append, List.mem_map, List.mem_filter, Prod.exists,
      exists_and_right, exists_eq_right]
    constructor
    · rintro ⟨v, member, notifies⟩
      obtain ⟨-, rfl⟩ := (mem_entries ok.wf).mp member
      rcases ok.find_eq topic with ⟨none, -⟩ | ⟨some, -⟩
      · simp [none, Mtrie.notifies] at notifies
      · simp only [some, Mtrie.notifies, Bool.and_eq_true, decide_eq_true_eq, Bool.or_eq_true,
          List.isEmpty_iff] at notifies
        refine ⟨notifies.1, fun uniq => ?_⟩
        rcases notifies.2 with every | last
        · rw [uniq] at every
          cases every
        · exact last
    · rintro ⟨there, last⟩
      rcases ok.find_eq topic with ⟨-, empty⟩ | ⟨some, filled⟩
      · rw [empty] at there
        cases there
      · refine ⟨_, (mem_entries ok.wf).mpr ⟨?_, rfl⟩, ?_⟩
        · rw [some]
          nofun
        · rw [some]
          cases callOnUniq with
          | false => simp [Mtrie.notifies, there]
          | true => simp [Mtrie.notifies, there, last rfl]

theorem mem_matchAll (data : List UInt8) (n : Mtrie ι) :
    p ∈ matchAll data n ↔ ∃ topic, topic <+: data ∧ p ∈ n.subscribers topic := by
  have useful (values : List (Option (List ι))) : p ∈ values.flatMap (·.getD []) ↔
      p ∈ (values.filter (· ≠ default)).flatMap (·.getD []) := by
    simp only [List.mem_flatMap, List.mem_filter]
    constructor
    · rintro ⟨v, member, there⟩
      cases v with
      | none => cases there
      | some pipes =>
        exact ⟨_, ⟨member, by simp [show (default : Option (List ι)) = none from rfl]⟩, there⟩
    · rintro ⟨v, ⟨member, -⟩, there⟩
      exact ⟨v, member, there⟩
  rw [matchAll, useful, path_eq, ← useful]
  simp [subscribers]

end Mtrie

end Zmq
