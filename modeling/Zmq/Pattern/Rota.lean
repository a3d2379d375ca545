import Zmq.Pattern.Array
import Zmq.Pipe.Outcome

/-! # Taking turns

`lb_t` and `fq_t` keep their pipes in one array, the active ones in front, and name the
pipe whose turn it is by its position. Both move pipes about in the same way when one is
attached, activated or terminated. What matters in the middle of a message is whether
such a move loses the position.
-/

namespace Zmq

open Lib Function

/-- `_pipes`, `_active` and `_current` of `lb_t` and `fq_t`. -/
structure Rota (ι : Type) where
  pipes : ArrayT ι
  active : Nat
  current : Nat

namespace Rota

variable {ι : Type} [DecidableEq ι] {i : Nat}

def empty : Rota ι where
  pipes := .empty
  active := 0
  current := 0

variable (r : Rota ι)

def activated (p : ι) : Except Fault (Rota ι) := do
  let pipes ← r.pipes.swap (r.pipes.index p) r.active
  .ok { r with pipes := pipes, active := r.active + 1 }

def attach (p : ι) : Except Fault (Rota ι) :=
  if there : p ∈ r.pipes.items then .error .attachedTwice
  else activated { r with pipes := r.pipes.pushBack p there } p

/-- Make the item at `index` the first that is not active. -/
def retire (index : Nat) : Except Fault (Rota ι) := do
  let pipes ← r.pipes.swap index (r.active - 1)
  .ok
    { pipes := pipes
      active := r.active - 1
      current := if r.current = r.active - 1 then 0 else r.current }

def pipeTerminated (p : ι) : Except Fault (Rota ι) :=
  if r.pipes.index p < r.active then do
    let r ← r.retire (r.pipes.index p)
    let pipes ← r.pipes.erase p
    .ok { r with pipes := pipes }
  else do
    let pipes ← r.pipes.erase p
    .ok { r with pipes := pipes }

/-- The active pipes are a part of the array, and the current one is among them. -/
structure Ok (r : Rota ι) : Prop where
  le : r.active ≤ r.pipes.items.length
  within : r.current < r.active ∨ r.active = 0 ∧ r.current = 0

def current? : Option ι := r.pipes.items[r.current]?

def turn (q : ι) : Prop := r.current < r.active ∧ r.current? = some q

instance (q : ι) : Decidable (r.turn q) := inferInstanceAs (Decidable (_ ∧ _))

def currentPipe : Except Fault ι :=
  match r.current? with
  | some pipe => .ok pipe
  | none => .error .outOfBounds

variable {r r' : Rota ι} {p q : ι}

section

omit [DecidableEq ι]

theorem currentPipe_ok : r.currentPipe = .ok p ↔ r.current? = some p := by
  unfold currentPipe
  cases r.current? <;> simp

theorem turn_unique (left : r.turn p) (right : r.turn q) : p = q :=
  Option.some.inj (left.2.symm.trans right.2)

theorem mem_of_turn (turn : r.turn p) : p ∈ r.pipes.items := List.mem_of_getElem? turn.2

theorem Ok.within_of_pos (ok : r.Ok) (pos : 0 < r.active) : r.current < r.active := by
  have := ok.within
  omega

end

theorem activated_eq (done : r.activated p = .ok r') :
    ∃ pipes, r.pipes.swap (r.pipes.index p) r.active = .ok pipes ∧
      r' = { r with pipes := pipes, active := r.active + 1 } := by
  obtain ⟨pipes, swapped, same⟩ := bind_ok.mp done
  exact ⟨pipes, swapped, (Except.ok.inj same).symm⟩

theorem Ok.activated (ok : r.Ok) (done : r.activated p = .ok r') : r'.Ok := by
  obtain ⟨pipes, swapped, rfl⟩ := activated_eq done
  obtain ⟨_, _, _, second, _⟩ := ArrayT.swap_ok swapped
  have room := (List.getElem?_eq_some_iff.mp second).1
  have := ok.within
  have := ArrayT.length_swap swapped
  exact ⟨by simp only; omega, .inl (by simp only; omega)⟩

theorem mem_activated (done : r.activated p = .ok r') : q ∈ r'.pipes.items ↔ q ∈ r.pipes.items := by
  obtain ⟨pipes, swapped, rfl⟩ := activated_eq done
  exact ArrayT.mem_swap swapped

theorem turn_activated (done : r.activated p = .ok r') (member : p ∈ r.pipes.items)
    (turn : r.turn q) (other : q ≠ p) : r'.turn q := by
  obtain ⟨pipes, swapped, rfl⟩ := activated_eq done
  obtain ⟨inside, here⟩ := turn
  have elsewhere : r.current ≠ r.pipes.index p := by
    intro same
    rw [current?, same, r.pipes.at_index member] at here
    exact other (Option.some.inj here).symm
  refine ⟨Nat.lt_succ_of_lt inside, ?_⟩
  exact (ArrayT.getElem?_of_swap swapped elsewhere (by omega)).trans here

theorem attach_eq (done : r.attach p = .ok r') :
    ∃ there : p ∉ r.pipes.items,
      Rota.activated { r with pipes := r.pipes.pushBack p there } p = .ok r' := by
  unfold attach at done
  split at done
  · cases done
  · exact ⟨_, done⟩

theorem Ok.attach (ok : r.Ok) (done : r.attach p = .ok r') : r'.Ok := by
  obtain ⟨there, done⟩ := attach_eq done
  have ok' : Ok { r with pipes := r.pipes.pushBack p there } := by
    have := ok.le
    refine ⟨?_, ok.within⟩
    simp only [ArrayT.pushBack, List.length_append]
    omega
  exact ok'.activated done

theorem mem_attach (done : r.attach p = .ok r') :
    q ∈ r'.pipes.items ↔ q ∈ r.pipes.items ∨ q = p := by
  obtain ⟨there, done⟩ := attach_eq done
  rw [mem_activated done]
  simp [ArrayT.pushBack]

theorem turn_attach (ok : r.Ok) (done : r.attach p = .ok r') (turn : r.turn q) : r'.turn q := by
  obtain ⟨there, done⟩ := attach_eq done
  obtain ⟨inside, here⟩ := turn
  have := ok.le
  refine turn_activated done (by simp [ArrayT.pushBack]) ⟨inside, ?_⟩ ?_
  · simp only [current?, ArrayT.pushBack]
    rw [List.getElem?_append_left (by omega)]
    exact here
  · rintro rfl
    exact there (List.mem_of_getElem? here)

theorem retire_eq (done : r.retire i = .ok r') :
    ∃ pipes, r.pipes.swap i (r.active - 1) = .ok pipes ∧ r' =
      { pipes := pipes
        active := r.active - 1
        current := if r.current = r.active - 1 then 0 else r.current } := by
  obtain ⟨pipes, swapped, same⟩ := bind_ok.mp done
  exact ⟨pipes, swapped, (Except.ok.inj same).symm⟩

theorem Ok.retire_total (ok : r.Ok) (inside : r.current < r.active) :
    ∃ r', r.retire r.current = .ok r' := by
  have := ok.le
  obtain ⟨pipes, swapped⟩ := r.pipes.swap_total (i := r.current) (j := r.active - 1) (by omega)
    (by omega)
  exact ⟨_, by rw [retire, swapped]; rfl⟩

theorem Ok.retire (ok : r.Ok) (done : r.retire i = .ok r') : r'.Ok := by
  obtain ⟨pipes, swapped, rfl⟩ := retire_eq done
  have := ok.le
  have := ok.within
  have := ArrayT.length_swap swapped
  constructor
  · simp only
    omega
  · simp only
    split <;> omega

theorem mem_retire (done : r.retire i = .ok r') : q ∈ r'.pipes.items ↔ q ∈ r.pipes.items := by
  obtain ⟨pipes, swapped, rfl⟩ := retire_eq done
  exact ArrayT.mem_swap swapped

theorem Ok.pipeTerminated (ok : r.Ok) (member : p ∈ r.pipes.items)
    (done : r.pipeTerminated p = .ok r') : r'.Ok := by
  unfold Rota.pipeTerminated at done
  have bound := r.pipes.index_lt member
  split at done
  · rename_i early
    obtain ⟨mid, retired, done⟩ := bind_ok.mp done
    obtain ⟨pipes, erased, rfl⟩ := bind_return.mp done
    have ok' := ok.retire retired
    have shorter := ArrayT.length_erase ((mem_retire retired).mpr member) erased
    obtain ⟨pipes', swapped, rfl⟩ := retire_eq retired
    have := ArrayT.length_swap swapped
    have := ok.le
    exact ⟨by simp only at *; omega, ok'.within⟩
  · obtain ⟨pipes, erased, rfl⟩ := bind_return.mp done
    have shorter := ArrayT.length_erase member erased
    exact ⟨by simp only; omega, ok.within⟩

theorem mem_pipeTerminated (member : p ∈ r.pipes.items) (done : r.pipeTerminated p = .ok r') :
    q ∈ r'.pipes.items ↔ q ∈ r.pipes.items ∧ q ≠ p := by
  unfold Rota.pipeTerminated at done
  split at done
  · obtain ⟨mid, retired, done⟩ := bind_ok.mp done
    obtain ⟨pipes, erased, rfl⟩ := bind_return.mp done
    rw [ArrayT.mem_erase ((mem_retire retired).mpr member) erased, mem_retire retired]
  · obtain ⟨pipes, erased, rfl⟩ := bind_return.mp done
    exact ArrayT.mem_erase member erased

/-- The removal of `p` moves the last active pipe to its place. If that is the current
    pipe and the place is not the first, the current position is lost. -/
def displaces (r : Rota ι) (p : ι) : Prop :=
  0 < r.pipes.index p ∧ r.pipes.index p < r.active ∧ r.pipes.index p ≠ r.current ∧
    r.current = r.active - 1
  deriving Decidable

theorem turn_pipeTerminated (ok : r.Ok) (member : p ∈ r.pipes.items)
    (done : r.pipeTerminated p = .ok r') (turn : r.turn q) (other : q ≠ p)
    (placed : ¬ r.displaces p) : r'.turn q := by
  obtain ⟨inside, here⟩ := turn
  have elsewhere : r.current ≠ r.pipes.index p := by
    intro same
    rw [current?, same, r.pipes.at_index member] at here
    exact other (Option.some.inj here).symm
  have le := ok.le
  have bound := r.pipes.index_lt member
  unfold Rota.pipeTerminated at done
  split at done
  · rename_i early
    obtain ⟨mid, retired, done⟩ := bind_ok.mp done
    obtain ⟨pipes, erased, rfl⟩ := bind_return.mp done
    have there := (mem_retire retired).mpr member
    obtain ⟨pipes', swapped, rfl⟩ := retire_eq retired
    have after := ArrayT.erase_ok there erased
    simp only at after there
    have length := ArrayT.length_swap swapped
    obtain ⟨p', q', first, second, before⟩ := ArrayT.swap_ok swapped
    have moved : pipes'.items[r.active - 1]? = some p := by
      rw [before, if_pos rfl, ← first, r.pipes.at_index member]
    have index : pipes'.index p = r.active - 1 := pipes'.indexed _ _ moved
    by_cases last : r.current = r.active - 1
    · -- The current pipe moves to the place of `p`, which is the first.
      have zero : r.pipes.index p = 0 := by
        by_contra later
        exact placed ⟨by omega, early, fun same => elsewhere same.symm, last⟩
      have current : pipes'.items[0]? = some q := by
        rw [before, if_neg (by omega), if_pos zero.symm, ← second, ← last]
        exact here
      refine ⟨by simp only [if_pos last]; omega, ?_⟩
      simp only [current?, if_pos last]
      rw [after, if_pos (by omega), if_neg (by omega), current]
    · have current : pipes'.items[r.current]? = some q := by
        rw [before, if_neg last, if_neg elsewhere]
        exact here
      refine ⟨by simp only [if_neg last]; omega, ?_⟩
      simp only [current?, if_neg last]
      rw [after, if_pos (by omega), if_neg (by omega), current]
  · obtain ⟨pipes, erased, rfl⟩ := bind_return.mp done
    have after := ArrayT.erase_ok member erased
    refine ⟨inside, ?_⟩
    simp only [current?]
    rw [after, if_pos (by omega), if_neg elsewhere]
    exact here

/-- A list of pipes none of which is gone. `P` is what holds for each pipe, listed or
    not. -/
structure Serves (r : Rota ι) (pair : ι → Pair) (P : ι → Pair → Prop) : Prop where
  ok : r.Ok
  stays : ∀ i ∈ r.pipes.items, ((pair i).pipe .first).deleted = false
  holds : ∀ i, P i (pair i)

namespace Serves

variable {pair : ι → Pair} {P Q : ι → Pair → Prop} {s : Pair}

omit [DecidableEq ι] in
theorem at_turn (serves : r.Serves pair P) (turn : r.turn p) :
    ((pair p).pipe .first).deleted = false := serves.stays p (mem_of_turn turn)

omit [DecidableEq ι] in
theorem move (serves : r.Serves pair P) (ok : r'.Ok)
    (members : ∀ i ∈ r'.pipes.items, i ∈ r.pipes.items) : r'.Serves pair P where
  ok := ok
  stays i member := serves.stays i (members i member)
  holds := serves.holds

theorem use (serves : r.Serves pair P) (stays : p ∈ r.pipes.items → (s.pipe .first).deleted = false)
    (own : Q p s) (others : ∀ i, i ≠ p → P i (pair i) → Q i (pair i)) :
    r.Serves (update pair p s) Q where
  ok := serves.ok
  stays i member := by
    by_cases same : i = p
    · subst same
      rw [update_self, stays member]
    · rw [update_of_ne same, serves.stays i member]
  holds i := by
    by_cases same : i = p
    · subst same
      rwa [update_self]
    · rw [update_of_ne same]
      exact others i same (serves.holds i)

end Serves

end Rota

/-- What the socket did to its ends of the pipes, all of it of one kind. -/
inductive Uses {ι : Type} [DecidableEq ι] (A : Action → Prop) : (ι → Pair) → (ι → Pair) → Prop where
  | nothing {pair : ι → Pair} : Uses A pair pair
  | call {pair pair' : ι → Pair} {i : ι} {a : Action} {t : Pair} : A a →
      ((pair i).pipe .first).deleted = false → (pair i).Outcome .first a t →
      Uses A (update pair i t) pair' → Uses A pair pair'

end Zmq
