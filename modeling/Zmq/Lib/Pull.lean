import Mathlib

/-! # Parsers that ask for what they need

A pull parser says how many items its next step needs and takes the step once it has them: it
goes on, hands something out, or rejects the input. Between two steps it stands in a state with
the items it holds. What it hands out does not depend on how its input is cut into pieces: a
piece that comes later can be appended to what it held before.
-/

namespace Zmq.Lib

/-- What a parser makes of the items it asked for. -/
inductive Turn (γ α ε : Type) where
  | more (g : γ)
  | emit (a : α) (g : γ)
  | reject (e : ε)

structure Pull (β γ α ε : Type) where
  /-- How many items the next step takes. -/
  need : γ → Nat
  turn : γ → List β → Turn γ α ε

namespace Pull

variable {β γ α ε : Type}

/-- From `g` with the items `held`, the parser hands out a list and comes to another state with
    what is left of the items. -/
inductive Leads (p : Pull β γ α ε) : γ → List β → List α → γ → List β → Prop where
  | refl (g held) : Leads p g held [] g held
  | more {g} (part) {g' held outs g'' left} : part.length = p.need g → p.turn g part = .more g' →
      Leads p g' held outs g'' left → Leads p g (part ++ held) outs g'' left
  | emit {g} (part) {a g' held outs g'' left} : part.length = p.need g → p.turn g part = .emit a g' →
      Leads p g' held outs g'' left → Leads p g (part ++ held) (a :: outs) g'' left

/-- The parser hands out a list and then rejects what comes. -/
def Rejects (p : Pull β γ α ε) (g : γ) (held : List β) (outs : List α) (e : ε) : Prop :=
  ∃ g' part left, p.Leads g held outs g' (part ++ left) ∧ part.length = p.need g' ∧
    p.turn g' part = .reject e

variable {p : Pull β γ α ε} {g g' g'' : γ} {held left left' : List β} {outs outs' : List α} {e : ε}

section

variable (first : p.Leads g held outs g' left)
include first

theorem Leads.trans (next : p.Leads g' left outs' g'' left') :
    p.Leads g held (outs ++ outs') g'' left' := by
  induction first with
  | refl g held => exact next
  | more part enough turn _ ih => exact .more part enough turn (ih next)
  | emit part enough turn _ ih => exact .emit part enough turn (ih next)

/-- What comes later changes nothing of what was done before. -/
theorem Leads.append (later : List β) : p.Leads g (held ++ later) outs g' (left ++ later) := by
  induction first with
  | refl g held => exact .refl g _
  | more part enough turn _ ih =>
    rw [List.append_assoc]
    exact .more part enough turn ih
  | emit part enough turn _ ih =>
    rw [List.append_assoc]
    exact .emit part enough turn ih

theorem Leads.rejects (next : p.Rejects g' left outs' e) : p.Rejects g held (outs ++ outs') e := by
  obtain ⟨g₁, part, rest, onward, enough, turn⟩ := next
  exact ⟨g₁, part, rest, first.trans onward, enough, turn⟩

end

/-- Of two runs on the same items one goes on from where the other ends. -/
theorem Leads.comparable (one : p.Leads g held outs g' left)
    (other : p.Leads g held outs' g'' left') :
    (∃ rest, outs' = outs ++ rest ∧ p.Leads g' left rest g'' left') ∨
      ∃ rest, outs = outs' ++ rest ∧ p.Leads g'' left' rest g' left := by
  induction one generalizing outs' with
  | refl g held => exact .inl ⟨outs', rfl, other⟩
  | more part enough turn onward ih =>
    generalize same : part ++ _ = all at other
    cases other with
    | refl =>
      subst same
      exact .inr ⟨_, rfl, .more part enough turn onward⟩
    | more part' enough' turn' onward' =>
      obtain ⟨rfl, rfl⟩ := List.append_inj same (by omega)
      cases turn.symm.trans turn'
      exact ih onward'
    | emit part' enough' turn' =>
      obtain ⟨rfl, -⟩ := List.append_inj same (by omega)
      cases turn.symm.trans turn'
  | emit part enough turn onward ih =>
    generalize same : part ++ _ = all at other
    cases other with
    | refl =>
      subst same
      exact .inr ⟨_, rfl, .emit part enough turn onward⟩
    | more part' enough' turn' =>
      obtain ⟨rfl, -⟩ := List.append_inj same (by omega)
      cases turn.symm.trans turn'
    | emit part' enough' turn' onward' =>
      obtain ⟨rfl, rfl⟩ := List.append_inj same (by omega)
      cases turn.symm.trans turn'
      rcases ih onward' with ⟨rest, rfl, further⟩ | ⟨rest, rfl, further⟩
      · exact .inl ⟨rest, rfl, further⟩
      · exact .inr ⟨rest, rfl, further⟩

/-- A parser that waits for more has done everything any other run on the same items does. -/
theorem Leads.of_waiting (one : p.Leads g held outs g' left)
    (other : p.Leads g held outs' g'' left') (waits : left'.length < p.need g'') :
    ∃ rest, outs' = outs ++ rest ∧ p.Leads g' left rest g'' left' := by
  rcases one.comparable other with found | ⟨rest, rfl, onward⟩
  · exact found
  · cases onward with
    | refl => exact ⟨[], by simp, .refl _ _⟩
    | more part enough | emit part enough => simp only [List.length_append] at waits; omega

/-- A parser that rejects has done everything any other run on the same items does. -/
theorem Leads.of_rejecting (one : p.Leads g held outs g' left) (other : p.Rejects g held outs' e) :
    ∃ rest, outs' = outs ++ rest ∧ p.Rejects g' left rest e := by
  obtain ⟨g'', part, rest', leads, enough, turn⟩ := other
  rcases one.comparable leads with ⟨rest, same, onward⟩ | ⟨rest, rfl, onward⟩
  · exact ⟨rest, same, g'', part, rest', onward, enough, turn⟩
  · generalize same : part ++ rest' = all at onward
    cases onward with
    | refl =>
      subst same
      exact ⟨[], by simp, _, part, rest', .refl _ _, enough, turn⟩
    | more part' enough' turn' | emit part' enough' turn' =>
      obtain ⟨rfl, -⟩ := List.append_inj same (by omega)
      cases turn.symm.trans turn'

theorem Rejects.append (rejects : p.Rejects g held outs e) (later : List β) :
    p.Rejects g (held ++ later) outs e := by
  obtain ⟨g', part, left, leads, enough, turn⟩ := rejects
  have leads := leads.append later
  rw [List.append_assoc] at leads
  exact ⟨g', part, left ++ later, leads, enough, turn⟩

theorem not_rejects_of_waiting (waits : held.length < p.need g) : ¬ p.Rejects g held outs e := by
  rintro ⟨g', part, left, leads, enough, -⟩
  generalize same : part ++ left = rest at leads
  cases leads with
  | refl => simp only [← same, List.length_append] at waits; omega
  | more part' enough' | emit part' enough' => simp only [List.length_append] at waits; omega

theorem Leads.flatMap {ι : Type} {write : ι → List β} {read : ι → α} {items : List ι}
    (each : ∀ i ∈ items, ∀ rest, p.Leads g (write i ++ rest) [read i] g rest) :
    p.Leads g (items.flatMap write) (items.map read) g [] := by
  induction items with
  | nil => exact .refl g []
  | cons i items ih =>
    rw [List.forall_mem_cons] at each
    exact (each.1 _).trans (ih each.2)

theorem Leads.unique (one : p.Leads g held outs g' left) (waits : left.length < p.need g')
    (other : p.Leads g held outs' g'' left') (waits' : left'.length < p.need g'') :
    outs = outs' := by
  obtain ⟨rest, rfl, onward⟩ := one.of_waiting other waits'
  cases onward with
  | refl => exact (List.append_nil _).symm
  | more part enough | emit part enough => simp only [List.length_append] at waits; omega

theorem Rejects.unique {e' : ε} (one : p.Rejects g held outs e)
    (other : p.Rejects g held outs' e') : outs = outs' ∧ e = e' := by
  obtain ⟨g₁, part, left, leads, enough, turn⟩ := one
  obtain ⟨rest, rfl, g₂, part', left', onward, enough', turn'⟩ := leads.of_rejecting other
  generalize same : part ++ left = all, same' : part' ++ left' = all' at onward
  cases onward with
  | refl =>
    subst same
    obtain ⟨rfl, -⟩ := List.append_inj same' (by omega)
    cases turn.symm.trans turn'
    exact ⟨(List.append_nil _).symm, rfl⟩
  | more part'' enough'' turn'' | emit part'' enough'' turn'' =>
    obtain ⟨rfl, -⟩ := List.append_inj same (by omega)
    cases turn.symm.trans turn''

end Pull

end Zmq.Lib
