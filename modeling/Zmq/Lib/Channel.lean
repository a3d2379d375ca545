import Mathlib

/-! # Phases of a FIFO channel

A party that talks over a FIFO goes through phases, and what it may say next
depends on its phase. The receiver lags behind: reading the messages still in
flight takes it from its own phase to the sender's. This file has the algebra of
that catch-up relation for an arbitrary partial automaton of phases.
-/

namespace Zmq.Lib

variable {φ α : Type} {word : List α} {P : φ → Prop}

/-- Read a word, or get stuck at a message the current phase does not admit. -/
def absorb (next : φ → α → Option φ) : φ → List α → Option φ
  | phase, [] => some phase
  | phase, a :: rest => (next phase a).bind (absorb next · rest)

variable {next : φ → α → Option φ} {phase : φ}

@[simp] theorem absorb_nil : absorb next phase [] = some phase := rfl

@[simp] theorem absorb_cons (a : α) (rest : List α) :
    absorb next phase (a :: rest) = (next phase a).bind (absorb next · rest) := rfl

theorem absorb_append (word more : List α) :
    absorb next phase (word ++ more) = (absorb next phase word).bind (absorb next · more) := by
  induction word generalizing phase with
  | nil => rfl
  | cons a rest ih =>
    simp only [List.cons_append, absorb_cons]
    cases next phase a with
    | none => rfl
    | some p => simpa using ih

theorem absorb_snoc {sender : φ} (a : α) (synced : absorb next phase word = some sender) :
    absorb next phase (word ++ [a]) = next sender a := by
  rw [absorb_append, synced]
  exact Option.bind_fun_some _

theorem absorb_closed (closed : ∀ p a q, P p → next p a = some q → P q) {last : φ}
    (inside : P phase) (synced : absorb next phase word = some last) : P last := by
  induction word generalizing phase with
  | nil =>
    cases synced
    exact inside
  | cons a rest ih =>
    obtain ⟨p, moved, onward⟩ := Option.bind_eq_some_iff.mp synced
    exact ih (closed phase a p inside moved) onward

theorem absorb_mem (back : ∀ p a q, next p a = some q → P q → P p) {a : α} {last : φ}
    (admits : ∀ p q, next p a = some q → P p) (member : a ∈ word)
    (synced : absorb next phase word = some last) : P phase := by
  induction word generalizing phase with
  | nil => cases member
  | cons b rest ih =>
    obtain ⟨p, moved, onward⟩ := Option.bind_eq_some_iff.mp synced
    rcases List.mem_cons.mp member with rfl | later
    · exact admits phase p moved
    · exact back phase b p moved (ih later onward)

end Zmq.Lib
