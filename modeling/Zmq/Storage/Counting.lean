import Zmq.Storage.Basic

/-! # Reference counts of messages

A content is accounted for by the handles of counted messages that point to it; one that is being
distributed stands for the pipes that have not got the message, or refused it. A long group is
accounted for by the messages that point to it; here a message that is being distributed stands for
one reference until a pipe takes it, since `distribute` leaves the counter of the group alone. So
the groups are right only as long as each distribution ends with as many references as it began
with.
-/

namespace Zmq

open Lib

namespace Handle

variable (h : Handle)

def block : Option Nat := if h.counted then some h.content else none

def member : Option Nat := if h.type = none then none else h.group

end Handle

namespace Slot

variable (x : Slot)

def references : Nat → Nat :=
  holding x.msg.block <|
    match x.sending with
    | none => 1
    | some d => d.remaining + d.failed

def membership : Nat → Nat :=
  holding x.msg.member <|
    match x.sending with
    | none => 1
    | some d => if d.taken = 0 then 1 else 0

end Slot

namespace Store

/-- The references to a content. A handle counts once; in the hands of `distribute` it counts for
    the pipes that have not taken the message. -/
def holders (s : Store) (c : Nat) : Nat := tally Slot.references s.slots c

/-- The references to a long group. A message counts once; in the hands of `distribute` it counts
    until a pipe takes it. -/
def members (s : Store) (g : Nat) : Nat := tally Slot.membership s.slots g

/-- There are no more references to any storage than its counter can count. -/
def Few (s : Store) : Prop :=
  ∀ x ∈ s.slots,
    (∀ c ∈ x.msg.block, s.holders c < 2 ^ 32) ∧ ∀ g ∈ x.msg.member, s.members g < 2 ^ 32
  deriving Decidable

/-- The counters, and the arguments of `add_refs` and `rm_refs`, can hold what they stand for. -/
def Fits (s : Store) (a : StoreAction) : Prop :=
  s.Few ∧ match a with
    | .distribute _ matching => matching < 2 ^ 31
    | .finish i => s.Busy i fun _ d => d.failed < 2 ^ 31
    | _ => True

structure Sound (s : Store) : Prop where
  contents : Accounted Slot.references (·.msg.shared) s.slots s.contents fun _ => 0
  groups : Accounted Slot.membership (fun _ => true) s.slots s.groups fun _ => 0

/-- `rm_refs` at the end of a distribution closes the message. -/
def Closes (h : Handle) (d : Distribution) : Prop :=
  h.type ≠ some .vsm ∧ 0 < d.failed ∧ (h.counted && h.shared) = false

/-- What keeps the counters of long groups right: a message with one is not copied onto itself, only
    one pipe takes it, and it is closed by the distributor if and only if no pipe took it. -/
def Balanced (s : Store) : StoreAction → Prop
  | .copy dst src => dst = src → s.Idle src fun h => h.member = none
  | .offer i taken => taken = true → s.Busy i fun h d => h.member = none ∨ d.taken = 0
  | .finish i => s.Busy i fun h d => h.member = none ∨ (d.taken = 0 ↔ Closes h d)
  | _ => True

end Store

namespace Handle

variable {h : Handle}

theorem block_of_type {type : MsgType} (plain : type ≠ .lmsg ∧ type ≠ .zclmsg)
    (same : h.type = some type) : h.block = none := by
  simp [block, counted, same, plain]

theorem block_closed : h.closed.block = none := rfl

theorem member_closed : h.closed.member = none := rfl

theorem shared_sharing (counted : h.block ≠ none) : h.sharing.shared = true := by
  have counted : h.counted = true := by
    by_contra plain
    exact counted (if_neg plain)
  simp [sharing, counted]

end Handle

namespace Store

variable {s : Store} {x : Slot} {i dst src : Nat}

theorem slot_of (there : s.slots[i]? = some x) : s.slot i = .ok x := by
  rw [slot, there]

theorem dropContent_eq (h : Handle) (refs : Nat) :
    s.dropContent h refs = s.withContents (s.contents.drop h.block h.shared refs) := by
  unfold dropContent Handle.block Counters.drop
  cases h.counted <;> cases h.shared <;> rfl

theorem shareContent_eq (h : Handle) (refs : Nat) :
    s.shareContent h refs = s.withContents (s.contents.share h.block h.shared refs) := by
  unfold shareContent Handle.block Counters.share
  cases h.counted <;> cases h.shared <;> rfl

variable {h : Handle}

theorem dropGroup_eq (valid : h.type ≠ none) :
    s.dropGroup h = s.withGroups (s.groups.drop h.member true 1) := by
  rw [Handle.member, if_neg valid, dropGroup]
  cases h.group <;> rfl

theorem shareGroup_eq (valid : h.type ≠ none) :
    s.shareGroup h = s.withGroups (s.groups.share h.member true 1) := by
  rw [Handle.member, if_neg valid, shareGroup]
  cases h.group <;> rfl

theorem close_eq {contents groups : Counters 32} (there : s.slots[i]? = some x)
    (valid : x.msg.type ≠ none)
    (dropped : s.contents.drop x.msg.block x.msg.shared 1 = some contents)
    (left : s.groups.drop x.msg.member true 1 = some groups) :
    s.close i = .ok (true, ⟨s.slots.set i { msg := x.msg.closed }, contents, groups⟩) := by
  rw [close, slot_of there, ok_bind, if_neg valid, dropContent_eq, dropped]
  simp only [withContents, ok_bind]
  rw [dropGroup_eq valid]
  simp only [left]
  rfl

theorem references_none (plain : h.block = none) (c : Nat) :
    Slot.references { msg := h } c = 0 := by
  simp [Slot.references, plain]

theorem membership_none (plain : h.member = none) (g : Nat) :
    Slot.membership { msg := h } g = 0 := by
  simp [Slot.membership, plain]

theorem references_idle (idle : x.sending = none) (c : Nat) :
    x.references c = holding x.msg.block 1 c := by
  rw [Slot.references, idle]

theorem membership_idle (idle : x.sending = none) (g : Nat) :
    x.membership g = holding x.msg.member 1 g := by
  rw [Slot.membership, idle]

/-- `close` takes one reference from the content and from the group. -/
theorem Sound.close (sound : s.Sound) (few : s.Few) (there : s.slots[i]? = some x)
    (idle : x.sending = none) (valid : x.msg.type ≠ none) :
    ∃ t, s.close i = .ok (true, t) ∧ t.Sound ∧ t.slots[i]? = some { msg := x.msg.closed } ∧
      (∀ j, i ≠ j → t.slots[j]? = s.slots[j]?) ∧
      t.slots = s.slots.set i { msg := x.msg.closed } ∧ t.contents.next = s.contents.next ∧
      ∀ c, x.msg.block = some c → 0 < t.holders c →
        t.contents.count c = some (.ofNat 32 (t.holders c)) := by
  have held := few x (List.mem_of_getElem? there)
  obtain ⟨contents, dropped, count, accounted⟩ := sound.contents.release there
    (references_idle idle) (references_none Handle.block_closed) one_pos held.1
  obtain ⟨groups, left, -, accounted'⟩ := sound.groups.release there (membership_idle idle)
    (membership_none Handle.member_closed) one_pos held.2
  exact ⟨_, close_eq there valid dropped left, ⟨accounted, accounted'⟩,
    List.getElem?_set_self (List.getElem?_eq_some_iff.mp there).1,
    fun _ apart => List.getElem?_set_ne apart, rfl, Counters.drop_next _ dropped, count⟩

theorem Sound.put (sound : s.Sound) (there : s.slots[i]? = some x) (empty : ∀ c, x.references c = 0)
    (apart : ∀ g, x.membership g = 0) (plain : h.block = none)
    (alone : h.member = none) : (s.put i h).Sound := by
  refine ⟨sound.contents.keep there (fun c => ?_) ?_, sound.groups.keep there (fun g => ?_) fun _ => rfl⟩
  · rw [references_none plain, empty]
  · rintro ⟨c, holds⟩
    rw [empty] at holds
    omega
  · rw [membership_none alone, apart]

theorem references_closed (closed : x.msg.type = none) (c : Nat) : x.references c = 0 := by
  simp [Slot.references, Handle.block, Handle.counted, closed]

theorem membership_closed (closed : x.msg.type = none) (g : Nat) : x.membership g = 0 := by
  simp [Slot.membership, Handle.member, closed]

section

variable (sound : s.Sound)
include sound

theorem Sound.initCounted (there : s.slots[i]? = some x) (closed : x.msg.type = none)
    {type : MsgType} (counted : type = .lmsg ∨ type = .zclmsg) : (s.initCounted i type).Sound := by
  refine ⟨sound.contents.create there (references_closed closed) (fun c => ?_) (.inr rfl),
    sound.groups.keep there (fun g => ?_) fun _ => rfl⟩
  · rcases counted with rfl | rfl <;> rfl
  · rw [membership_closed closed]
    exact membership_none rfl g

theorem Sound.setGroup {length : Nat} (allowed : s.Idle i fun h => h.type ≠ none ∧ h.group = none) :
    ∃ t, s.setGroup i length = .ok t ∧ t.Sound := by
  obtain ⟨x, there, idle, valid, ungrouped⟩ := allowed
  rw [Store.setGroup, slot_of there, ok_bind]
  split
  · exact ⟨s, rfl, sound⟩
  · split
    · refine ⟨_, rfl, ?_, ?_⟩
      · exact sound.contents.keep there (fun c => by rw [references_idle idle]; rfl) fun _ => rfl
      · refine sound.groups.create there (fun g => ?_) (fun g => ?_) (.inl rfl)
        · simp [Slot.membership, Handle.member, ungrouped]
        · simp [Slot.membership, Handle.member, valid]
    · exact ⟨s, rfl, sound⟩

theorem Sound.duplicate {y : Slot} (apart : dst ≠ src) (there : s.slots[src]? = some x)
    (idle : x.sending = none) (valid : x.msg.type ≠ none) (there' : s.slots[dst]? = some y)
    (closed : y.msg.type = none) : ∃ t, s.duplicate dst src = .ok t ∧ t.Sound := by
  obtain ⟨contents, shared, accounted⟩ := sound.contents.duplicate (y := { msg := x.msg.sharing })
    apart there (references_idle idle) there' (references_closed closed) (fun _ => rfl)
    Handle.shared_sharing
  obtain ⟨groups, joined, accounted'⟩ := sound.groups.duplicate (y := { msg := x.msg.sharing })
    apart there (membership_idle idle) there' (membership_closed closed) (fun _ => rfl) fun _ => rfl
  refine ⟨⟨(s.slots.set src { msg := x.msg.sharing }).set dst { msg := x.msg.sharing }, contents,
    groups⟩, ?_, accounted, accounted'⟩
  rw [Store.duplicate, slot_of there, ok_bind, shareContent_eq, shared]
  simp only [withContents, ok_bind]
  rw [shareGroup_eq valid]
  simp only [joined]
  rfl

theorem Sound.duplicate_self (there : s.slots[i]? = some x) (closed : x.msg.type = none)
    (ungrouped : x.msg.group = none) : ∃ t, s.duplicate i i = .ok t ∧ t.Sound := by
  have block : x.msg.block = none := by simp [Handle.block, Handle.counted, closed]
  have member : x.msg.sharing.member = none := by simp [Handle.member, Handle.sharing, closed]
  have bound : i < s.slots.length := (List.getElem?_eq_some_iff.mp there).1
  have first := sound.put (h := x.msg.sharing) there (references_closed closed)
    (membership_closed closed) block member
  have second := first.put (h := x.msg.sharing) (List.getElem?_set_self bound)
    (references_none block) (membership_none member) block member
  refine ⟨_, ?_, second⟩
  rw [Store.duplicate, slot_of there, ok_bind, shareContent_eq, block]
  simp only [Counters.share, withContents, ok_bind, shareGroup, ungrouped]

theorem Sound.copy (few : s.Few) (allowed : s.Idle dst (fun _ => True) ∧ s.Idle src fun _ => True)
    (balanced : dst = src → s.Idle src fun h => h.member = none) :
    ∃ t, s.copy dst src = .ok t ∧ t.Sound := by
  obtain ⟨⟨y, there', idle', -⟩, x, there, idle, -⟩ := allowed
  rw [Store.copy, slot_of there, ok_bind]
  split
  · exact ⟨s, rfl, sound⟩
  · rename_i valid
    by_cases valid' : y.msg.type = none
    · rw [Store.close, slot_of there', ok_bind, if_pos valid']
      exact ⟨s, rfl, sound⟩
    · obtain ⟨t, done, sound', closed, others, -⟩ := sound.close few there' idle' valid'
      rw [done, ok_bind]
      by_cases apart : dst = src
      · subst apart
        obtain ⟨x', there'', -, ungrouped⟩ := balanced rfl
        rw [there'] at there''
        cases there''
        refine sound'.duplicate_self closed rfl ?_
        rwa [Handle.member, if_neg valid'] at ungrouped
      · refine sound'.duplicate apart ?_ idle valid closed rfl
        rwa [others src apart]

theorem Sound.move (few : s.Few) (allowed : s.Idle dst (fun _ => True) ∧ s.Idle src fun _ => True) :
    ∃ t, s.move dst src = .ok t ∧ t.Sound := by
  obtain ⟨⟨y, there', idle', -⟩, x, there, idle, -⟩ := allowed
  rw [Store.move, slot_of there, ok_bind]
  split
  · exact ⟨s, rfl, sound⟩
  · rename_i valid
    by_cases valid' : y.msg.type = none
    · rw [Store.close, slot_of there', ok_bind, if_pos valid']
      exact ⟨s, rfl, sound⟩
    · obtain ⟨t, done, sound', closed, others, -⟩ := sound.close few there' idle' valid'
      rw [done, ok_bind]
      simp only [if_true]
      by_cases apart : dst = src
      · subst apart
        have bound' : dst < t.slots.length := (List.getElem?_eq_some_iff.mp closed).1
        have first := sound'.put (h := y.msg.closed) closed (references_closed rfl)
          (membership_closed rfl) rfl rfl
        rw [slot_of closed, ok_bind]
        exact ⟨_, rfl, first.put (List.getElem?_set_self bound') (references_closed rfl)
          (membership_closed rfl) rfl rfl⟩
      · have there'' : t.slots[src]? = some x := by
          rwa [others src apart]
        rw [slot_of there'', ok_bind]
        refine ⟨_, rfl, ?_, ?_⟩
        · exact sound'.contents.transfer apart there'' (references_idle idle) one_pos closed
            (references_closed rfl) (fun _ => rfl) rfl (references_none rfl)
        · exact sound'.groups.transfer apart there'' (membership_idle idle) one_pos closed
            (membership_closed rfl) (fun _ => rfl) rfl (membership_none rfl)

theorem Sound.distribute {matching : Nat} (fits : s.Fits (.distribute i matching))
    (allowed : s.Idle i fun h => h.type ≠ none) : ∃ t, s.distribute i matching = .ok t ∧ t.Sound := by
  obtain ⟨x, there, idle, valid⟩ := allowed
  obtain ⟨few, small⟩ := fits
  rw [Store.distribute, slot_of there, ok_bind]
  split
  · obtain ⟨t, done, sound', closed, -⟩ := sound.close few there idle valid
    rw [done, ok_bind]
    exact ⟨_, rfl, sound'.put closed (references_closed rfl) (membership_closed rfl) rfl rfl⟩
  · rename_i some
    have refs : int (matching - 1) = ((matching - 1 : Nat) : Int) := by
      rw [int_eq_self (by omega) (by simp only at small; omega)]
      omega
    -- the group is not looked at, so it is the reference of the sender until a pipe has it
    have member (h : Handle) (same : h.member = x.msg.member) (g : Nat) :
        Slot.membership { msg := h, sending := .some { remaining := matching } } g =
          x.membership g := by
      simp [Slot.membership, idle, same]
    simp only [refs, Int.natCast_eq_zero, Int.toNat_natCast]
    split
    · rename_i uncounted
      refine ⟨_, rfl, sound.contents.keep there (fun c => ?_) fun _ => rfl,
        sound.groups.keep there (member x.msg rfl) fun _ => rfl⟩
      rcases uncounted with vsm | last
      · simp [Slot.references, Handle.block_of_type (by decide) vsm]
      · simp [Slot.references, idle, show matching = 1 by omega]
    · rw [if_neg (by omega)]
      have points (c : Nat) :
          Slot.references { msg := x.msg.sharing, sending := .some { remaining := matching } } c =
            holding x.msg.block (matching - 1 + 1) c := by
        rw [Nat.sub_add_cancel (Nat.pos_of_ne_zero some)]
        rfl
      obtain ⟨contents, shared, accounted⟩ := sound.contents.multiply there (references_idle idle)
        points Handle.shared_sharing ⟨{ msg := {} }, references_none rfl⟩
      rw [shareContent_eq, shared]
      exact ⟨_, rfl, accounted, sound.groups.keep there (member x.msg.sharing rfl) fun _ => rfl⟩

theorem Sound.offer {taken : Bool} (allowed : s.Busy i fun _ d => 0 < d.remaining)
    (balanced : taken = true → s.Busy i fun h d => h.member = none ∨ d.taken = 0) :
    ∃ t, s.offer i taken = .ok t ∧ t.Sound := by
  obtain ⟨x, d, there, busy, more⟩ := allowed
  rw [Store.offer, slot_of there, ok_bind]
  simp only [busy]
  cases taken with
  | true =>
    obtain ⟨x', d', there', busy', once⟩ := balanced rfl
    rw [there] at there'
    cases there'
    rw [busy] at busy'
    cases busy'
    refine ⟨_, rfl, sound.contents.pass there (fun c => ?_) rfl rfl,
      sound.groups.pass there (fun g => ?_) rfl rfl⟩
    · simp only [Slot.references, busy]
      rw [← holding_add]
      congr 1
      omega
    · rcases once with alone | first
      · simp [Slot.membership, alone]
      · simp [Slot.membership, busy, first]
  | false =>
    refine ⟨_, rfl, sound.contents.keep there (fun c => ?_) fun _ => rfl,
      sound.groups.keep there (fun g => ?_) fun _ => rfl⟩
    · simp only [Slot.references, busy]
      congr 1
      omega
    · simp [Slot.membership, busy]

end

theorem drop_unshared (unshared : (h.counted && h.shared) = false)
    (contents : Counters 32) (m n : Nat) :
    contents.drop h.block h.shared m = contents.drop h.block h.shared n := by
  unfold Handle.block Counters.drop
  cases counted : h.counted with
  | false => rfl
  | true =>
    have alone : h.shared = false := by simpa [counted] using unshared
    rw [alone]
    rfl

theorem Sound.finish (sound : s.Sound) (fits : s.Fits (.finish i))
    (allowed : s.Busy i fun _ d => d.remaining = 0)
    (balanced : s.Busy i fun h d => h.member = none ∨ (d.taken = 0 ↔ Closes h d)) :
    ∃ t, s.finish i = .ok t ∧ t.Sound := by
  obtain ⟨x, d, there, busy, last⟩ := allowed
  obtain ⟨x', d', there', busy', closes⟩ := balanced
  rw [there] at there'
  cases there'
  rw [busy] at busy'
  cases busy'
  obtain ⟨few, x', d', there', busy', small⟩ := fits
  rw [there] at there'
  cases there'
  rw [busy] at busy'
  cases busy'
  have held := few x (List.mem_of_getElem? there)
  have failed : int d.failed = d.failed := int_eq_self (by omega) (by omega)
  have references (c : Nat) : x.references c = holding x.msg.block d.failed c := by
    simp [Slot.references, busy, last]
  -- if the message is not closed, then its group went with a copy
  have away (stays : ¬ Closes x.msg d) (g : Nat) : x.membership g = 0 := by
    rcases closes with alone | closes
    · simp [Slot.membership, alone]
    · have taken : d.taken ≠ 0 := fun untaken => stays (closes.mp untaken)
      simp [Slot.membership, busy, taken]
  rw [Store.finish, slot_of there, ok_bind]
  simp only [busy, failed, Int.natCast_eq_zero]
  split
  · rename_i uncounted
    refine ⟨_, rfl, sound.put there (fun c => ?_) (away ?_) rfl rfl⟩
    · rw [references]
      rcases uncounted with vsm | none
      · simp [Handle.block_of_type (by decide) vsm]
      · simp [none]
    · rintro ⟨counted, some, -⟩
      rcases uncounted with vsm | none
      · exact counted vsm
      · omega
  · rename_i counted
    obtain ⟨notVsm, some⟩ := not_or.mp counted
    have positive : 0 < d.failed := Nat.pos_of_ne_zero some
    rw [Store.rmRefs, slot_of there, ok_bind, if_neg (by omega), Int.toNat_natCast]
    split
    · rename_i shared
      obtain ⟨contents, dropped, -, accounted⟩ := sound.contents.release there references
        (references_none (h := { type := .some .vsm }) rfl) positive held.1
      rw [dropContent_eq, dropped]
      refine ⟨_, rfl, accounted, sound.groups.keep there (fun g => ?_) fun _ => rfl⟩
      rw [away fun ⟨_, _, apart⟩ => by simp [shared] at apart]
      exact membership_none rfl g
    · rename_i single
      have unshared : (x.msg.counted && x.msg.shared) = false := by simpa using single
      by_cases closed : x.msg.type = none
      · rw [Store.close, slot_of there, ok_bind, if_pos closed]
        exact ⟨_, rfl, sound.put there (references_closed closed) (membership_closed closed) rfl rfl⟩
      · have membership (g : Nat) : x.membership g = holding x.msg.member 1 g := by
          rcases closes with alone | closes
          · simp [Slot.membership, alone]
          · simp [Slot.membership, busy, closes.mpr ⟨notVsm, positive, unshared⟩]
        obtain ⟨contents, dropped, -, accounted⟩ := sound.contents.release
          (y := { msg := x.msg.closed }) there references (references_closed rfl) positive
          held.1
        obtain ⟨groups, left, -, accounted'⟩ := sound.groups.release (y := { msg := x.msg.closed })
          there membership (membership_closed rfl) one_pos held.2
        have bound : i < s.slots.length := (List.getElem?_eq_some_iff.mp there).1
        rw [close_eq there closed ((drop_unshared unshared _ _ _).trans dropped) left]
        have sound' : Sound ⟨s.slots.set i { msg := x.msg.closed }, contents, groups⟩ :=
          ⟨accounted, accounted'⟩
        exact ⟨_, rfl, sound'.put (List.getElem?_set_self bound) (references_closed rfl)
          (membership_closed rfl) rfl rfl⟩

theorem Sound.step {a : StoreAction} (sound : s.Sound) (allowed : s.Allowed a) (fits : s.Fits a)
    (balanced : s.Balanced a) : ∃ t, s.step a = .ok t ∧ t.Sound := by
  have plain {i : Nat} {h : Handle} (allowed : s.Idle i fun h => h.type = none)
      (block : h.block = none) (member : h.member = none) : (s.put i h).Sound := by
    obtain ⟨x, there, -, closed⟩ := allowed
    exact sound.put there (references_closed closed) (membership_closed closed) block member
  have counted {i : Nat} {type : MsgType} (allowed : s.Idle i fun h => h.type = none)
      (counted : type = .lmsg ∨ type = .zclmsg) : (s.initCounted i type).Sound := by
    obtain ⟨x, there, -, closed⟩ := allowed
    exact sound.initCounted there closed counted
  cases a with
  | declare =>
    exact ⟨_, rfl, sound.contents.declare (references_none rfl),
      sound.groups.declare (membership_none rfl)⟩
  | init i | initDelimiter i | initJoin i | initLeave i => exact ⟨_, rfl, plain allowed rfl rfl⟩
  | initSize i size =>
    refine ⟨_, rfl, ?_⟩
    unfold initSize
    split
    · exact plain allowed rfl rfl
    · exact counted allowed (.inl rfl)
  | initData i ffn =>
    refine ⟨_, rfl, ?_⟩
    unfold initData
    split
    · exact counted allowed (.inl rfl)
    · exact plain allowed rfl rfl
  | initExternalStorage i => exact ⟨_, rfl, counted allowed (.inr rfl)⟩
  | setGroup i length => exact sound.setGroup allowed
  | copy dst src => exact sound.copy fits.1 allowed balanced
  | move dst src => exact sound.move fits.1 allowed
  | close i =>
    obtain ⟨x, there, idle, -⟩ := allowed
    by_cases closed : x.msg.type = none
    · refine ⟨s, ?_, sound⟩
      rw [Store.step, Store.close, slot_of there, ok_bind, if_pos closed]
      rfl
    · obtain ⟨t, done, sound', -⟩ := sound.close fits.1 there idle closed
      exact ⟨t, by rw [Store.step, done]; rfl, sound'⟩
  | distribute i matching => exact sound.distribute fits allowed
  | offer i taken => exact sound.offer allowed balanced
  | finish i => exact sound.finish fits allowed balanced

theorem sound_new : Sound {} := ⟨.empty, .empty⟩

def Steady (s : Store) (a : StoreAction) : Prop := s.Allowed a ∧ s.Fits a ∧ s.Balanced a

theorem sound_of_reaches (reached : Reaches Store.step Steady {} s) : s.Sound := by
  refine reached.invariant sound_new fun s a t sound steady taken => ?_
  obtain ⟨t', done, sound'⟩ := sound.step steady.1 steady.2.1 steady.2.2
  rw [done] at taken
  cases taken
  exact sound'

end Store

end Zmq
