import Zmq.Lib.Run

/-! # Programs with state and failures

A program reads and changes a state and can fail. `wp` is its weakest precondition: it
holds of the states from which the program ends in `post`, or fails in a way that is
`permitted`. The rules follow the syntax of a `do` block; the rule for a call is
`wp_mono` with the specification of the callee.

Much of a program leaves most of the state alone. `Keeps` says that a program keeps an
invariant and moves the state along a preorder only; it is closed under composition, so
that a frame condition is proved statement by statement.
-/

namespace Zmq.Lib

/-- Programs over a state `σ` that fail with an `ε`. -/
abbrev Program (ε σ : Type) := StateT σ (Except ε)

variable {ε σ τ α β : Type} {k : α → Program ε σ β} {y : Program ε σ α} {c : Prop} {e : ε}

def wp (permitted : ε → Prop) (x : Program ε σ α) (post : α → σ → Prop) (s : σ) : Prop :=
  match x s with
  | .ok (a, t) => post a t
  | .error e => permitted e

def zoom (get : τ → σ) (set : τ → σ → τ) (x : Program ε σ α) : Program ε τ α := fun s => do
  let (a, part) ← x (get s)
  .ok (a, set s part)

variable {permitted : ε → Prop} {x : Program ε σ α} {post post' : α → σ → Prop} {s t : σ} {a : α}

theorem wp_ok (holds : wp permitted x post s) (ends : x s = .ok (a, t)) : post a t := by
  simpa [wp, ends] using holds

theorem wp_error (holds : wp permitted x post s) (failed : x s = .error e) : permitted e := by
  simpa [wp, failed] using holds

/-- Where no failure is permitted, the program ends. -/
theorem wp_total {post : α → σ → Prop} (holds : wp (fun _ : ε => False) x post s) :
    ∃ a t, x s = .ok (a, t) ∧ post a t := by
  unfold wp at holds
  split at holds
  · rename_i ends
    exact ⟨_, _, ends, holds⟩
  · exact holds.elim

/-- The rule for a call: the callee's postcondition gives the caller's. -/
theorem wp_mono (holds : wp permitted x post s) (onward : ∀ a t, post a t → post' a t) :
    wp permitted x post' s := by
  unfold wp at *
  split
  · rename_i ends
    simp only [ends] at holds
    exact onward _ _ holds
  · rename_i failed
    simpa [failed] using holds

theorem wp_any (runs : wp permitted x (fun _ _ => True) s) (onward : ∀ a t, post a t) :
    wp permitted x post s :=
  wp_mono runs fun a t _ => onward a t

theorem wp_and (holds : wp permitted x post s) (holds' : wp permitted x post' s) :
    wp permitted x (fun a t => post a t ∧ post' a t) s := by
  unfold wp at *
  cases run : x s with
  | error e => simpa [run] using holds
  | ok result =>
    simp only [run] at holds holds'
    exact ⟨holds, holds'⟩

@[simp] theorem wp_pure (a : α) : wp permitted (pure a) post s ↔ post a s := Iff.rfl

@[simp] theorem wp_bind {post : β → σ → Prop} :
    wp permitted (x >>= k) post s ↔ wp permitted x (fun a t => wp permitted (k a) post t) s := by
  simp only [wp, bind, StateT.bind]
  cases x s with
  | error _ | ok _ => exact Iff.rfl

@[simp] theorem wp_get {post : σ → σ → Prop} :
    wp permitted (get : Program ε σ σ) post s ↔ post s s := Iff.rfl

@[simp] theorem wp_modify {post : PUnit → σ → Prop} (f : σ → σ) :
    wp permitted (modify f : Program ε σ PUnit) post s ↔ post ⟨⟩ (f s) := Iff.rfl

@[simp] theorem wp_set {post : PUnit → σ → Prop} :
    wp permitted (set t : Program ε σ PUnit) post s ↔ post ⟨⟩ t := Iff.rfl

@[simp] theorem wp_throw (e : ε) : wp permitted (throw e : Program ε σ α) post s ↔ permitted e :=
  Iff.rfl

@[simp] theorem wp_zoom {get : τ → σ} {set : τ → σ → τ} {post : α → τ → Prop} {s : τ} :
    wp permitted (zoom get set x) post s ↔
      wp permitted x (fun a part => post a (set s part)) (get s) := by
  simp only [wp, zoom]
  cases x (get s) with
  | error _ | ok _ => exact Iff.rfl

theorem wp_ite [Decidable c] (yes : c → wp permitted x post s)
    (no : ¬ c → wp permitted y post s) : wp permitted (if c then x else y) post s := by
  split
  · rename_i holds
    exact yes holds
  · rename_i fails
    exact no fails

/-- The program keeps `inv` and goes from a state to one that is `onward` of it. -/
def Keeps (permitted : ε → Prop) (inv : σ → Prop) (onward : σ → σ → Prop)
    (x : Program ε σ α) : Prop :=
  ∀ s, inv s → wp permitted x (fun _ t => inv t ∧ onward s t) s

namespace Keeps

variable {inv : σ → Prop} {onward : σ → σ → Prop}

theorem pure [IsPreorder σ onward] (a : α) :
    Keeps permitted inv onward (Pure.pure a : Program ε σ α) := by
  intro s holds
  exact ⟨holds, refl_of onward s⟩

theorem get [IsPreorder σ onward] : Keeps permitted inv onward (MonadState.get : Program ε σ σ) := by
  intro s holds
  exact ⟨holds, refl_of onward s⟩

theorem throw (allowed : permitted e) :
    Keeps permitted inv onward (MonadExcept.throw e : Program ε σ α) := by
  intro s _
  exact allowed

theorem modify {f : σ → σ} (stays : ∀ s, inv s → inv (f s) ∧ onward s (f s)) :
    Keeps permitted inv onward (modify f : Program ε σ PUnit) := by
  intro s holds
  exact stays s holds

theorem bind_of [IsPreorder σ onward] {P : α → Prop} (first : Keeps permitted inv onward x)
    (returns : ∀ s, inv s → wp permitted x (fun a _ => P a) s)
    (next : ∀ a, P a → Keeps permitted inv onward (k a)) :
    Keeps permitted inv onward (x >>= k) := by
  intro s holds
  rw [wp_bind]
  apply wp_mono (wp_and (first s holds) (returns s holds))
  rintro a t ⟨⟨there, moved⟩, known⟩
  apply wp_mono (next a known t there)
  rintro b u ⟨last, further⟩
  exact ⟨last, trans_of onward moved further⟩

theorem bind [IsPreorder σ onward] (first : Keeps permitted inv onward x)
    (next : ∀ a, Keeps permitted inv onward (k a)) : Keeps permitted inv onward (x >>= k) :=
  first.bind_of (P := fun _ => True) (fun s holds => wp_mono (first s holds) fun _ _ _ => trivial)
    fun a _ => next a

theorem ite [Decidable c] (yes : c → Keeps permitted inv onward x)
    (no : ¬ c → Keeps permitted inv onward y) :
    Keeps permitted inv onward (if c then x else y) := by
  intro s holds
  exact wp_ite (fun h => yes h s holds) fun h => no h s holds

theorem when [IsPreorder σ onward] [Decidable c] {a : α} (yes : Keeps permitted inv onward x) :
    Keeps permitted inv onward (if c then x else Pure.pure a) :=
  .ite (fun _ => yes) fun _ => .pure a

end Keeps

end Zmq.Lib
