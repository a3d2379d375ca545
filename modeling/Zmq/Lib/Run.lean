import Mathlib

/-! # Runs of partial transition functions

A step function takes a state and an action and either fails or gives the next
state. An `allowed` predicate says which actions the environment may take in a
state. Safety properties are then proved once for a step and carried to every
state, and to every history, by the two rules below.
-/

namespace Zmq.Lib

variable {ε α β : Type} {b : β} {f : α → β}

variable {x : Except ε α}

/-- Peel the first computation off a successful `Except` block. -/
theorem bind_ok {k : α → Except ε β} : (x >>= k) = .ok b ↔ ∃ a, x = .ok a ∧ k a = .ok b := by
  cases x with
  | error _ | ok _ => simp [bind, Except.bind]

theorem bind_total {k : α → Except ε β} (first : ∃ a, x = .ok a)
    (rest : ∀ a, x = .ok a → ∃ b, k a = .ok b) : ∃ b, (x >>= k) = .ok b := by
  obtain ⟨a, done⟩ := first
  obtain ⟨b, next⟩ := rest a done
  exact ⟨b, bind_ok.mpr ⟨a, done, next⟩⟩

theorem bind_return : (x >>= fun a => .ok (f a)) = .ok b ↔ ∃ a, x = .ok a ∧ f a = b := by
  simp [bind_ok]

theorem ok_pair {a c : α} {d : β} :
    (.ok (a, b) : Except ε (α × β)) = .ok (c, d) ↔ a = c ∧ b = d := by
  simp

@[simp] theorem ok_bind (a : α) (k : α → Except ε β) :
    ((Except.ok a : Except ε α) >>= k) = k a := rfl

@[simp] theorem error_bind (e : ε) (k : α → Except ε β) :
    ((Except.error e : Except ε α) >>= k) = .error e := rfl

theorem map_ok : x.map f = .ok b ↔ ∃ a, x = .ok a ∧ f a = b := by
  cases x <;> simp [Except.map]

theorem map_error {e : ε} : x.map f = .error e ↔ x = .error e := by
  cases x <;> simp [Except.map]

@[simp] theorem pure_ok (a : α) : (pure a : Except ε α) = .ok a := rfl

theorem forall_mem_concat {l : List α} {a : α} {P : α → Prop} (old : ∀ x ∈ l, P x) (new : P a) :
    ∀ x ∈ l ++ [a], P x :=
  List.forall_mem_append.mpr ⟨old, List.forall_mem_singleton.mpr new⟩

/-- What a computation leaves if it does not fail. -/
def Ensures (post : α → Prop) (x : Except ε α) : Prop := ∀ a, x = .ok a → post a

namespace Ensures

variable {post mid : α → Prop} {post' : β → Prop} {a : α} {y : Except ε α}

theorem any : Ensures (fun _ => True) x := fun _ _ => trivial

theorem ok (holds : post a) : Ensures post (.ok a : Except ε α) := by
  rintro _ ⟨⟩
  exact holds

theorem error {e : ε} : Ensures post (.error e) := nofun

theorem mono (holds : Ensures mid x) (onward : ∀ a, mid a → post a) : Ensures post x :=
  fun a done => onward a (holds a done)

theorem bind {k : α → Except ε β} (first : Ensures mid x) (rest : ∀ a, mid a → Ensures post' (k a)) :
    Ensures post' (x >>= k) := by
  intro b done
  obtain ⟨a, ran, done⟩ := bind_ok.mp done
  exact rest a (first a ran) b done

theorem ite {c : Prop} [Decidable c] (yes : c → Ensures post x) (no : ¬ c → Ensures post y) :
    Ensures post (if c then x else y) := by
  split
  · exact yes (by assumption)
  · exact no (by assumption)

end Ensures

theorem exists_ok_of_any (x : Except ε α) (test : α → Bool)
    (found : x.toOption.any test = true) : ∃ a, x = .ok a ∧ test a = true := by
  cases x with
  | error e => cases found
  | ok a => exact ⟨a, rfl, found⟩

instance decidableEqError {ε α : Type} [DecidableEq ε] (x : Except ε α) (e : ε) :
    Decidable (x = .error e) :=
  match x with
  | .error d => decidable_of_iff (d = e) (by simp)
  | .ok _ => isFalse nofun

variable {σ α ε : Type}

/-- A finite run: every step is allowed and succeeds. The history lists each
    action with the state it was taken in, oldest first. -/
inductive Trace (step : σ → α → Except ε σ) (allowed : σ → α → Prop) (init : σ) :
    List (σ × α) → σ → Prop where
  | start : Trace step allowed init [] init
  | next {past s a t} : Trace step allowed init past s → allowed s a → step s a = .ok t →
      Trace step allowed init (past ++ [(s, a)]) t

/-- The states that finite runs end in. -/
def Reaches (step : σ → α → Except ε σ) (allowed : σ → α → Prop) (init s : σ) : Prop :=
  ∃ past, Trace step allowed init past s

variable {step : σ → α → Except ε σ} {allowed stricter : σ → α → Prop} {init s t : σ} {a : α}
  {actions : List α}

/-- A property of the history and the current state holds along every run if
    each allowed step carries it on. -/
theorem Trace.invariant {P : List (σ × α) → σ → Prop} {past} (h : Trace step allowed init past s)
    (base : P [] init)
    (carry : ∀ past s a t, P past s → allowed s a → step s a = .ok t → P (past ++ [(s, a)]) t) :
    P past s := by
  induction h with
  | start => exact base
  | next _ ok taken ih => exact carry _ _ _ _ ih ok taken

theorem Reaches.start : Reaches step allowed init init := ⟨[], .start⟩

theorem Reaches.next (h : Reaches step allowed init s) (ok : allowed s a)
    (taken : step s a = .ok t) : Reaches step allowed init t := by
  obtain ⟨past, trace⟩ := h
  exact ⟨_, trace.next ok taken⟩

/-- An inductive invariant holds in every reached state. -/
theorem Reaches.invariant {P : σ → Prop} (h : Reaches step allowed init s) (base : P init)
    (carry : ∀ s a t, P s → allowed s a → step s a = .ok t → P t) : P s := by
  obtain ⟨past, trace⟩ := h
  exact trace.invariant (P := fun _ s => P s) base (fun _ s a t => carry s a t)

theorem Reaches.mono (h : Reaches step stricter init s)
    (weaker : ∀ s a, stricter s a → allowed s a) : Reaches step allowed init s :=
  h.invariant (P := Reaches step allowed init) .start
    (fun _ _ _ reached ok taken => reached.next (weaker _ _ ok) taken)

/-- Something happened in a history, and `P` held of what had happened before. -/
def Occurred (P : List (σ × α) → σ × α → Prop) (past : List (σ × α)) : Prop :=
  ∃ before now after, past = before ++ now :: after ∧ P before now

theorem Occurred.later {P : List (σ × α) → σ × α → Prop} {past : List (σ × α)} (h : Occurred P past)
    (x : σ × α) : Occurred P (past ++ [x]) := by
  obtain ⟨before, now, after, rfl, holds⟩ := h
  exact ⟨before, now, after ++ [x], by simp, holds⟩

theorem Occurred.now {P : List (σ × α) → σ × α → Prop} {past : List (σ × α)} {x : σ × α}
    (holds : P past x) : Occurred P (past ++ [x]) :=
  ⟨past, x, [], rfl, holds⟩

section

variable (step allowed) [∀ s a, Decidable (allowed s a)]

def record : σ → List α → Option (List (σ × α) × σ)
  | s, [] => some ([], s)
  | s, a :: rest =>
    if allowed s a then
      match step s a with
      | .ok t => (record t rest).map fun r => ((s, a) :: r.1, r.2)
      | .error _ => none
    else none

def follow (s : σ) (actions : List α) : Option σ := (record step allowed s actions).map Prod.snd

variable {step allowed} in
theorem Trace.record {past more}
    (h : Trace step allowed init past s) (ends : record step allowed s actions = some (more, t)) :
    Trace step allowed init (past ++ more) t := by
  induction actions generalizing s past more with
  | nil =>
    cases ends
    simpa using h
  | cons a rest ih =>
    simp only [Lib.record] at ends
    split at ends
    · rename_i ok
      split at ends
      · rename_i next taken
        obtain ⟨⟨later, t'⟩, run, ⟨⟩⟩ := Option.map_eq_some_iff.mp ends
        simpa using ih (h.next ok taken) run
      · cases ends
    · cases ends

variable (init actions)

theorem trace_of_record (test : List (σ × α) → σ → Bool)
    (found : (record step allowed init actions).any (fun r => test r.1 r.2) = true) :
    ∃ past s, Trace step allowed init past s ∧ test past s = true := by
  cases ends : record step allowed init actions with
  | none => simp [ends] at found
  | some r =>
    refine ⟨r.1, r.2, ?_, by simpa [ends] using found⟩
    simpa using Trace.start.record ends

theorem exists_reaches (P : σ → Prop) [DecidablePred P]
    (found : (follow step allowed init actions).any (fun s => decide (P s)) = true) :
    ∃ s, Reaches step allowed init s ∧ P s := by
  rw [follow, Option.any_map] at found
  obtain ⟨past, s, trace, holds⟩ :=
    trace_of_record step allowed init actions (fun _ s => decide (P s)) found
  exact ⟨s, ⟨past, trace⟩, of_decide_eq_true holds⟩

end

theorem exists_reaches_ok (begun : Except ε β) (start : β → σ) (step : σ → α → Except ε σ)
    (allowed : σ → α → Prop) [∀ s a, Decidable (allowed s a)] (actions : List α) (P : σ → Prop)
    [DecidablePred P]
    (found : (begun.toOption.bind fun b => follow step allowed (start b) actions).any
      (fun s => decide (P s)) = true) :
    ∃ b s, begun = .ok b ∧ Reaches step allowed (start b) s ∧ P s := by
  cases begun with
  | error e => cases found
  | ok b =>
    obtain ⟨s, reached, holds⟩ := exists_reaches step allowed (start b) actions P found
    exact ⟨b, s, rfl, reached, holds⟩

section Exhibits

variable [∀ s a, Decidable (allowed s a)] {P P' P'' Q : σ → Prop} [DecidablePred P]
  [DecidablePred P'] [DecidablePred P'']

theorem exists_run_and (actions : List α)
    (found : (follow step allowed init actions).any (fun s => decide (P s)) = true)
    (holds : ∀ s, Reaches step allowed init s → P s → Q s) :
    ∃ s, Reaches step allowed init s ∧ P s ∧ Q s := by
  obtain ⟨s, reached, test⟩ := exists_reaches step allowed init actions P found
  exact ⟨s, reached, test, holds s reached test⟩

theorem exists_run_and₂ (actions : List α)
    (found : (follow step allowed init actions).any (fun s => decide (P s ∧ P' s)) = true)
    (holds : ∀ s, Reaches step allowed init s → P s → P' s → Q s) :
    ∃ s, Reaches step allowed init s ∧ P s ∧ P' s ∧ Q s := by
  obtain ⟨s, reached, test, test'⟩ :=
    exists_reaches step allowed init actions (fun s => P s ∧ P' s) found
  exact ⟨s, reached, test, test', holds s reached test test'⟩

theorem exists_run_and₃ (actions : List α)
    (found : (follow step allowed init actions).any (fun s => decide (P s ∧ P' s ∧ P'' s)) = true)
    (holds : ∀ s, Reaches step allowed init s → P s → P' s → P'' s → Q s) :
    ∃ s, Reaches step allowed init s ∧ P s ∧ P' s ∧ P'' s ∧ Q s := by
  obtain ⟨s, reached, test, test', test''⟩ :=
    exists_reaches step allowed init actions (fun s => P s ∧ P' s ∧ P'' s) found
  exact ⟨s, reached, test, test', test'', holds s reached test test' test''⟩

end Exhibits

end Zmq.Lib
