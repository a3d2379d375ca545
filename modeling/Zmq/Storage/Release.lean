import Zmq.Storage.Counting

/-! # When storage is freed

Contents are freed with their last handle, in every order of calls and however a distribution ends,
if no content ever has so many handles that its counter wraps.
Long groups are freed with their last message only if the distributions of their messages are
balanced: `dist_t` makes bitwise copies of a message and counts the references to its content, but
not those to its group.
-/

namespace Zmq

open Lib

def StoreAction.setsGroup : StoreAction → Bool
  | .setGroup _ _ => true
  | _ => false

namespace Store

variable (s : Store)

instance (i : Nat) (P : Handle → Prop) [DecidablePred P] : Decidable (s.Idle i P) :=
  inferInstanceAs (Decidable (∃ x ∈ s.slots[i]?, x.sending = none ∧ P x.msg))

instance (i : Nat) (P : Handle → Distribution → Prop) [∀ h d, Decidable (P h d)] :
    Decidable (s.Busy i P) :=
  decidable_of_iff (∃ x ∈ s.slots[i]?, ∃ d ∈ x.sending, P x.msg d) (by simp [Busy])

variable (a : StoreAction)

instance : Decidable (s.Allowed a) := by
  cases a <;> unfold Allowed <;> infer_instance

instance (h : Handle) (d : Distribution) : Decidable (Closes h d) := by
  unfold Closes
  infer_instance

instance : Decidable (s.Balanced a) := by
  cases a <;> unfold Balanced <;> infer_instance

instance : Decidable (s.Fits a) := by
  cases a <;> unfold Fits <;> infer_instance

instance : Decidable (s.Steady a) := by
  unfold Steady
  infer_instance

def Plain : Prop := s.Allowed a ∧ a.setsGroup = false
  deriving Decidable

def Bounded : Prop := s.Plain a ∧ s.Fits a
  deriving Decidable

def Ungrouped : Prop := ∀ x ∈ s.slots, x.msg.group = none

variable {s t : Store} {x : Slot} {i refs : Nat} {h : Handle} {a : StoreAction}

section Ungrouped

variable (ungrouped : s.Ungrouped)
include ungrouped

theorem Ungrouped.set {y : Slot} (plain : y.msg.group = none) :
    ∀ z ∈ s.slots.set i y, z.msg.group = none := by
  intro z among
  rcases List.mem_or_eq_of_mem_set among with among | rfl
  · exact ungrouped z among
  · exact plain

theorem Ungrouped.put (plain : h.group = none) : (s.put i h).Ungrouped :=
  ungrouped.set plain

theorem Ungrouped.slot : Ensures (·.msg.group = none) (s.slot i) := by
  unfold Store.slot
  split
  · exact .error
  · rename_i x there
    exact .ok (ungrouped x (List.mem_of_getElem? there))

theorem Ungrouped.withContents (contents : Option (Counters 32)) :
    Ensures Ungrouped (s.withContents contents) := by
  cases contents with
  | none => exact .error
  | some contents => exact .ok ungrouped

theorem Ungrouped.dropContent : Ensures Ungrouped (s.dropContent h refs) := by
  rw [dropContent_eq]
  exact ungrouped.withContents _

theorem Ungrouped.shareContent : Ensures Ungrouped (s.shareContent h refs) := by
  rw [shareContent_eq]
  exact ungrouped.withContents _

theorem Ungrouped.close : Ensures (·.2.Ungrouped) (s.close i) := by
  refine .bind ungrouped.slot fun x plain => .ite (fun _ => .ok ungrouped) fun _ => ?_
  refine .bind ungrouped.dropContent fun t dropped => ?_
  rw [dropGroup, plain]
  exact .ok (dropped.put plain)

theorem Ungrouped.duplicate {dst src : Nat} : Ensures Ungrouped (s.duplicate dst src) := by
  refine .bind ungrouped.slot fun x plain => .bind ungrouped.shareContent fun t shared => ?_
  rw [shareGroup, plain]
  have plain' : x.msg.sharing.group = none := plain
  exact .ok ((shared.put plain').put plain')

theorem Ungrouped.distribute {matching : Nat} : Ensures Ungrouped (s.distribute i matching) := by
  refine .bind ungrouped.slot fun x plain => .ite (fun _ => ?_) fun _ => .ite (fun _ => ?_) fun _ =>
    .ite (fun _ => .error) fun _ => ?_
  · exact .bind ungrouped.close fun r dropped => .ite (fun _ => .ok (dropped.put rfl)) fun _ => .error
  · exact .ok (ungrouped.set plain)
  · exact .bind ungrouped.shareContent fun t shared => .ok (shared.set plain)

theorem Ungrouped.offer {taken : Bool} : Ensures Ungrouped (s.offer i taken) := by
  refine .bind ungrouped.slot fun x plain => ?_
  cases x.sending with
  | none => exact .ok ungrouped
  | some d =>
    refine .ite (fun _ => .ok ?_) fun _ => .ok (ungrouped.set plain)
    exact forall_mem_concat
      (ungrouped.set (y := ⟨x.msg, some ⟨d.remaining - 1, d.taken + 1, d.failed⟩⟩) plain) plain

theorem Ungrouped.rmRefs {refs : Int} : Ensures Ungrouped (s.rmRefs i refs) :=
  .bind .any fun _ _ => .ite (fun _ => .error) fun _ => .ite (fun _ => ungrouped.dropContent)
    fun _ => .bind ungrouped.close fun _ dropped => .ok dropped

theorem Ungrouped.finish : Ensures Ungrouped (s.finish i) := by
  refine .bind .any fun x _ => ?_
  cases x.sending with
  | none => exact .ok ungrouped
  | some d =>
    refine .ite (fun _ => .ok (ungrouped.put rfl)) fun _ => ?_
    exact .bind ungrouped.rmRefs fun t removed => .ok (removed.put rfl)

theorem Ungrouped.step (plain : s.Plain a) : Ensures Ungrouped (s.step a) := by
  cases a with
  | declare => exact .ok (forall_mem_concat ungrouped rfl)
  | init i | initDelimiter i | initJoin i | initLeave i | initExternalStorage i =>
    exact .ok (ungrouped.set rfl)
  | initSize i size =>
    refine .ok ?_
    unfold initSize
    split <;> exact ungrouped.set rfl
  | initData i ffn =>
    refine .ok ?_
    unfold initData
    split <;> exact ungrouped.set rfl
  | setGroup i length => exact absurd plain.2 (by simp [StoreAction.setsGroup])
  | copy dst src =>
    refine .bind .any fun x _ => .ite (fun _ => .ok ungrouped) fun _ => ?_
    exact .bind ungrouped.close fun r dropped => .ite (fun _ => dropped.duplicate) fun _ => .ok dropped
  | move dst src =>
    refine .bind .any fun x _ => .ite (fun _ => .ok ungrouped) fun _ => ?_
    refine .bind ungrouped.close fun r dropped => .ite (fun _ => ?_) fun _ => .ok dropped
    exact .bind dropped.slot fun x' plain => .ok ((dropped.put plain).put rfl)
  | close i =>
    rintro t done
    obtain ⟨r, dropped, rfl⟩ := map_ok.mp done
    exact ungrouped.close r dropped
  | distribute i matching => exact ungrouped.distribute
  | offer i taken => exact ungrouped.offer
  | finish i => exact ungrouped.finish

theorem Ungrouped.balanced (allowed : s.Allowed a) : s.Balanced a := by
  have alone {i : Nat} {y : Slot} (there : s.slots[i]? = some y) : y.msg.member = none := by
    rw [Handle.member, ungrouped y (List.mem_of_getElem? there), ite_self]
  cases a with
  | copy dst src =>
    obtain ⟨-, y, there, idle, -⟩ := allowed
    exact fun _ => ⟨y, there, idle, alone there⟩
  | offer i taken =>
    obtain ⟨y, d, there, busy, -⟩ := allowed
    exact fun _ => ⟨y, d, there, busy, .inl (alone there)⟩
  | finish i =>
    obtain ⟨y, d, there, busy, -⟩ := allowed
    exact ⟨y, d, there, busy, .inl (alone there)⟩
  | _ => trivial

end Ungrouped

theorem bounded_of_reaches (reached : Reaches Store.step Bounded {} s) : s.Sound ∧ s.Ungrouped := by
  have base : Sound {} ∧ Ungrouped {} := ⟨sound_new, nofun⟩
  refine reached.invariant (P := fun s => s.Sound ∧ s.Ungrouped) base ?_
  rintro s a t ⟨sound, ungrouped⟩ ⟨plain, fits⟩ taken
  obtain ⟨t', done, sound'⟩ := sound.step plain.1 fits (ungrouped.balanced plain.1)
  rw [done] at taken
  cases taken
  exact ⟨sound', ungrouped.step plain _ done⟩

theorem tally_idle {refs : Slot → Nat → Nat} {a : Nat} (pointer : Handle → Option Nat)
    (slots : List Slot) (idle : ∀ x ∈ slots, refs x a = holding (pointer x.msg) 1 a) :
    tally refs slots a = slots.countP fun x => pointer x.msg == some a := by
  induction slots with
  | nil => rfl
  | cons x rest ih =>
    have later := ih fun y among => idle y (List.mem_cons_of_mem _ among)
    rw [List.countP_cons, ← later, tally, List.map_cons, List.sum_cons, ← tally,
      idle x List.mem_cons_self, holding, Nat.add_comm]
    simp

theorem holders_idle {c : Nat} (idle : ∀ x ∈ s.slots, x.msg.block = some c → x.sending = none) :
    s.holders c = s.slots.countP fun x => x.msg.block == some c := by
  refine tally_idle Handle.block s.slots fun x among => ?_
  by_cases points : x.msg.block = some c
  · exact references_idle (idle x among points) c
  · simp [Slot.references, holding, points]

theorem members_idle {g : Nat} (idle : ∀ x ∈ s.slots, x.msg.member = some g → x.sending = none) :
    s.members g = s.slots.countP fun x => x.msg.member == some g := by
  refine tally_idle Handle.member s.slots fun x among => ?_
  by_cases points : x.msg.member = some g
  · exact membership_idle (idle x among points) g
  · simp [Slot.membership, holding, points]

theorem Sound.close_idle (sound : s.Sound) (few : s.Few) (there : s.slots[i]? = some x)
    (idle : x.sending = none) (valid : x.msg.type ≠ none) :
    ∃ t, s.step (.close i) = .ok t ∧ t.Sound ∧ t.contents.next = s.contents.next ∧
      (∀ c, t.holders c + holding x.msg.block 1 c = s.holders c) ∧
      (∀ g, t.members g + holding x.msg.member 1 g = s.members g) ∧
      ∀ c, x.msg.block = some c → 0 < t.holders c →
        t.contents.count c = some (.ofNat 32 (t.holders c)) := by
  obtain ⟨t, done, sound', -, -, slots, next, count⟩ := sound.close few there idle valid
  refine ⟨t, by rw [Store.step, done]; rfl, sound', next, fun c => ?_, fun g => ?_, count⟩
  · rw [← references_idle idle, holders, slots, tally_set _ there, references_closed rfl]
    rfl
  · rw [← membership_idle idle, members, slots, tally_set _ there, membership_closed rfl]
    rfl

theorem Few.toNat_count {c : Nat} (few : s.Few) (among : x ∈ s.slots) (points : x.msg.block = some c)
    (counts : s.contents.count c = some (.ofNat 32 (s.holders c))) :
    (s.contents.count c).map BitVec.toNat = some (s.holders c) := by
  rw [counts, Option.map_some, BitVec.toNat_ofNat, Nat.mod_eq_of_lt ((few x among).1 c points)]

/-- In every run without groups and without more references than a counter can count: no call fails,
    a content is freed once and when nothing refers to it any more, and the counter of a shared
    content is the number of references, which is the number of handles while nobody distributes one
    of them. To close a handle takes one reference: the last one frees the content, any other is
    taken from the counter. -/
theorem content_freed_with_last_handle (reached : Reaches Store.step Bounded {} s) (few : s.Few) :
    (∀ a, s.Bounded a → ∃ t, s.step a = .ok t) ∧
      (∀ c, s.contents.freed c = (if c < s.contents.next ∧ s.holders c = 0 then 1 else 0) ∧
        (∀ x ∈ s.slots, 0 < x.references c → x.msg.shared = true →
          (s.contents.count c).map BitVec.toNat = some (s.holders c)) ∧
        ((∀ x ∈ s.slots, x.msg.block = some c → x.sending = none) →
          s.holders c = s.slots.countP fun x => x.msg.block == some c)) ∧
      ∀ i x c, s.slots[i]? = some x → x.sending = none → x.msg.block = some c →
        ∃ t, s.step (.close i) = .ok t ∧ t.holders c + 1 = s.holders c ∧
          if s.holders c = 1 then t.contents.freed c = 1 ∧ t.contents.count c = none
          else t.contents.freed c = 0 ∧
            (t.contents.count c).map BitVec.toNat = some (s.holders c - 1) := by
  obtain ⟨sound, ungrouped⟩ := bounded_of_reaches reached
  refine ⟨?_, fun c => ⟨sound.contents.freed c, ?_, holders_idle⟩, ?_⟩
  · rintro a ⟨plain, fits⟩
    obtain ⟨t, done, -⟩ := sound.step plain.1 fits (ungrouped.balanced plain.1)
    exact ⟨t, done⟩
  · intro x among holds shared
    have counts := sound.contents.counts x among c holds
    rw [if_pos shared] at counts
    exact few.toNat_count among (holding_pos holds) counts
  · intro i x c there idle points
    have valid : x.msg.type ≠ none := by
      intro closed
      simp [Handle.block, Handle.counted, closed] at points
    obtain ⟨t, done, sound', next, less, -, count⟩ := sound.close_idle few there idle valid
    have less := less c
    rw [points, holding_self] at less
    refine ⟨t, done, less, ?_⟩
    have freed := sound'.contents.freed c
    have alive := sound'.contents.alive c
    rw [show tally Slot.references t.slots c = t.holders c from rfl, Nat.add_zero] at freed alive
    split
    · rename_i last
      have created := sound.contents.bounded c (last.symm ▸ one_pos : 0 < s.holders c)
      rw [if_pos (by omega)] at freed
      refine ⟨freed, ?_⟩
      simpa [show t.holders c = 0 by omega] using alive
    · rw [if_neg (by omega)] at freed
      have small := (few x (List.mem_of_getElem? there)).1 c points
      refine ⟨freed, ?_⟩
      rw [count c points (by omega), Option.map_some, BitVec.toNat_ofNat,
        Nat.mod_eq_of_lt (by omega), ← less, Nat.add_sub_cancel]

theorem content_freed_with_last_handle_distributed :
    ∃ s t, Reaches Store.step Bounded {} s ∧ s.contents.freed 0 = 0 ∧
      s.slots.countP (fun x => x.msg.block == some 0) = 2 ∧ s.contents.count 0 = some 2 ∧
      s.step (.close 1) = .ok t ∧ t.holders 0 = 1 ∧ t.contents.freed 0 = 0 := by
  obtain ⟨s, bounded, few, idle, handles, count, x, there, still, points⟩ :=
    exists_reaches Store.step Bounded {}
      [.declare, .initSize 0 100, .distribute 0 3, .offer 0 true, .offer 0 false, .offer 0 true,
        .finish 0]
      (fun s => s.Few ∧ (∀ x ∈ s.slots, x.sending = none) ∧
        s.slots.countP (fun x => x.msg.block == some 0) = 2 ∧ s.contents.count 0 = some 2 ∧
        ∃ x ∈ s.slots[1]?, x.sending = none ∧ x.msg.block = some 0) (by decide +kernel)
  obtain ⟨-, contents, close⟩ := content_freed_with_last_handle bounded few
  obtain ⟨freed, -, references⟩ := contents 0
  have held := (references fun x among _ => idle x among).trans handles
  obtain ⟨t, done, less, left⟩ := close 1 x 0 there still points
  rw [if_neg (by omega)] at freed left
  exact ⟨s, t, bounded, freed, handles, count, done, by omega, left.1⟩

/-- A handle of a long message that is shared. -/
private def sharedSlot : Slot := { msg := { type := some .lmsg, shared := true } }

structure Copies (n : Nat) (s : Store) : Prop where
  reached : Reaches Store.step Plain {} s
  slots : s.slots = List.replicate n sharedSlot
  count : s.contents.count 0 = some (.ofNat 32 n)
  freed : s.contents.freed 0 = 0

theorem Copies.next {n : Nat} (copies : Copies (n + 1) s) : ∃ t, Copies (n + 2) t := by
  obtain ⟨reached, slots, count, freed⟩ := copies
  obtain ⟨contents, groups, rfl⟩ : ∃ contents groups,
      s = ⟨List.replicate (n + 1) sharedSlot, contents, groups⟩ := ⟨_, _, by rw [← slots]⟩
  let row (y : Slot) : Store := ⟨List.replicate (n + 1) sharedSlot ++ [y], contents, groups⟩
  have last (y : Slot) : (row y).slots[n + 1]? = some y := by simp [row]
  have head (y : Slot) : (row y).slots[0]? = some sharedSlot := by simp [row]
  have put (y : Slot) (h : Handle) : (row y).put (n + 1) h = row { msg := h } := by
    simp [row, Store.put]
  let blank : Slot := { msg := { type := some .vsm } }
  have init : (row {}).step (.init (n + 1)) = .ok (row blank) := by rw [Store.step, Store.init, put]
  have close : (row blank).close (n + 1) = .ok (true, row { msg := blank.msg.closed }) := by
    rw [Store.close, slot_of (last _), ok_bind, if_neg (by simp [blank])]
    exact congrArg (fun t => Except.ok (true, t)) (put blank blank.msg.closed)
  let counted : Counters 32 :=
    { contents with count := Function.update contents.count 0 (some (.ofNat 32 (n + 2))) }
  have share (y : Slot) : (row y).shareContent sharedSlot.msg 1 = .ok { row y with contents := counted } := by
    have add : contents.add 0 1 = some counted := by
      rw [Counters.add, show contents.count 0 = _ from count, Option.bind_some, Counters.set,
        show contents.count 0 = _ from count, ← BitVec.ofNat_add]
      rfl
    exact congrArg (withContents (row y)) add
  have twice (y : Slot) : ((row y).slots.set 0 sharedSlot).set (n + 1) sharedSlot =
      List.replicate (n + 2) sharedSlot := by
    simp [row, List.replicate_succ, ← List.replicate_succ']
  have copy : (row blank).step (.copy (n + 1) 0) =
      .ok ⟨List.replicate (n + 2) sharedSlot, counted, groups⟩ := by
    rw [Store.step, Store.copy, slot_of (head _), ok_bind, if_neg (by simp [sharedSlot]), close]
    change (row _).duplicate (n + 1) 0 = _
    rw [Store.duplicate, slot_of (head _), ok_bind, share, ok_bind]
    exact congrArg (fun slots => (Except.ok ⟨slots, counted, groups⟩ : Except Fault Store)) (twice _)
  have declared : Reaches Store.step Plain {} (row {}) :=
    reached.next (show Plain _ .declare from ⟨trivial, rfl⟩) rfl
  have made : Reaches Store.step Plain {} (row blank) :=
    declared.next (show Plain _ (.init (n + 1)) from ⟨⟨_, last _, rfl, rfl⟩, rfl⟩) init
  refine ⟨_, made.next (show Plain _ (.copy (n + 1) 0) from
    ⟨⟨⟨_, last _, rfl, trivial⟩, _, head _, rfl, trivial⟩, rfl⟩) copy, rfl, ?_, freed⟩
  simp [counted]

theorem Copies.close {n : Nat} (copies : Copies (n + 1) s) (wraps : BitVec.ofNat 32 (n + 1) = 1) :
    ∃ t, Reaches Store.step Plain {} t ∧ t.contents.freed 0 = 1 ∧
      t.slots.countP (fun x => x.msg.block == some 0) = n := by
  obtain ⟨reached, slots, count, freed⟩ := copies
  have there : s.slots[0]? = some sharedSlot := by simp [slots]
  have dropped : s.contents.drop sharedSlot.msg.block true 1 =
      some { s.contents with
        count := Function.update s.contents.count 0 none
        freed := Function.update s.contents.freed 0 1 } := by
    change s.contents.sub 0 1 = _
    rw [Counters.sub, count, wraps, Option.bind_some, if_pos (by decide), Counters.free, count, freed]
    rfl
  have closed := close_eq there (by decide) dropped rfl
  refine ⟨_, reached.next (show Plain _ (.close 0) from ⟨⟨_, there, rfl, trivial⟩, rfl⟩)
    (by rw [Store.step, closed]; rfl), by simp, ?_⟩
  simp [slots, List.replicate_succ, sharedSlot, Handle.block, Handle.counted, Handle.closed,
    List.countP_replicate]

/-- After `2 ^ 32` copies of a message the counter of its content is one again: the first handle that
    is closed frees what all others still refer to. -/
theorem wrapped_counter_frees_early :
    ∃ s, Reaches Store.step Plain {} s ∧ s.contents.freed 0 = 1 ∧
      s.slots.countP (fun x => x.msg.block == some 0) = 2 ^ 32 := by
  have copied (n : Nat) : ∃ s, Copies (n + 2) s := by
    induction n with
    | zero =>
      obtain ⟨s, reached, slots, count, freed⟩ := exists_reaches Store.step Plain {}
        [.declare, .initSize 0 100, .declare, .init 1, .copy 1 0]
        (fun s => s.slots = List.replicate 2 sharedSlot ∧
          s.contents.count 0 = some (.ofNat 32 2) ∧ s.contents.freed 0 = 0) (by decide +kernel)
      exact ⟨s, reached, slots, count, freed⟩
    | succ n ih =>
      obtain ⟨s, copies⟩ := ih
      exact copies.next
  obtain ⟨s, copies⟩ := copied (2 ^ 32 - 1)
  exact copies.close (by decide)

/-- In every run of balanced calls no call fails, and a long group is freed once and when nothing
    refers to it any more. To close a message takes one reference. -/
theorem group_freed_with_last_message (reached : Reaches Store.step Steady {} s) :
    (∀ a, s.Steady a → ∃ t, s.step a = .ok t) ∧
      ∀ g, s.groups.freed g = (if g < s.groups.next ∧ s.members g = 0 then 1 else 0) ∧
        ((∀ x ∈ s.slots, x.msg.member = some g → x.sending = none) →
          s.members g = s.slots.countP fun x => x.msg.member == some g) ∧
        ∀ i, s.Steady (.close i) → ∀ x, s.slots[i]? = some x → x.msg.member = some g →
          ∃ t, s.step (.close i) = .ok t ∧ t.members g + 1 = s.members g := by
  have sound := sound_of_reaches reached
  refine ⟨fun a steady => ?_, fun g => ⟨sound.groups.freed g, members_idle, ?_⟩⟩
  · obtain ⟨t, done, -⟩ := sound.step steady.1 steady.2.1 steady.2.2
    exact ⟨t, done⟩
  · rintro i ⟨⟨x, there, idle, -⟩, ⟨few, -⟩, -⟩ x' there' points
    obtain rfl := Option.some.inj (there.symm.trans there')
    have valid : x.msg.type ≠ none := by
      intro closed
      simp [Handle.member, closed] at points
    obtain ⟨t, done, -, -, -, less, -⟩ := sound.close_idle few there idle valid
    refine ⟨t, done, ?_⟩
    rw [← less g, points, holding_self]

theorem group_freed_with_last_message_single :
    ∃ s, Reaches Store.step Steady {} s ∧ s.groups.next = 1 ∧ s.members 0 = 0 ∧
      s.groups.freed 0 = 1 := by
  refine exists_run_and₂
    [.declare, .initJoin 0, .setGroup 0 15, .distribute 0 1, .offer 0 true, .finish 0, .close 1]
    (by decide +kernel) fun s reached next none => ?_
  rw [((group_freed_with_last_message reached).2 0).1, if_pos ⟨by omega, none⟩]

/-- A JOIN for a group of 15 bytes to two pipes that both take it: the first copy that is closed
    frees the group, and the second looks at what was freed. -/
theorem group_freed_under_copy :
    ∃ s, Reaches Store.step Allowed {} s ∧ s.groups.freed 0 = 1 ∧
      s.slots[2]? = some { msg := { type := some .join, group := some 0 } } ∧
      s.Allowed (.close 2) ∧ s.step (.close 2) = .error .useAfterFree :=
  exists_reaches _ _ _
    [.declare, .initJoin 0, .setGroup 0 15, .distribute 0 2, .offer 0 true, .offer 0 true,
      .finish 0, .close 1]
    _ (by decide +kernel)

end Store

end Zmq
