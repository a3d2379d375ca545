import Zmq.Pattern.Fq

/-! # Fairness

A fair queue is to be fair: no peer can keep it from reading the others. How many messages other
pipes can get in before an active pipe has its turn is bounded by their number, whichever of them
are woken meanwhile, as a pipe that is woken is put behind those that wait.
-/

namespace Zmq

open Lib Function

namespace Rota

variable {ι : Type} [DecidableEq ι] {r r' : Rota ι} {p q : ι}

def Listed (r : Rota ι) (q : ι) : Prop := q ∈ r.pipes.items ∧ r.pipes.index q < r.active

instance (r : Rota ι) (q : ι) : Decidable (r.Listed q) := inferInstanceAs (Decidable (_ ∧ _))

/-- How many pipes can come before `q`. One that is not active may be woken in time, so they all
    count. -/
def ahead (r : Rota ι) (q : ι) : Nat :=
  if r.current ≤ r.pipes.index q then r.pipes.index q - r.current
  else r.pipes.index q + r.pipes.items.length - r.current

omit [DecidableEq ι] in
theorem Ok.ahead_lt (ok : r.Ok) (listed : r.Listed q) : r.ahead q < r.pipes.items.length := by
  have := r.pipes.index_lt listed.1
  have := ok.le
  have := ok.within
  rw [ahead]
  split <;> omega

theorem Ok.ahead_retire (ok : r.Ok) (inside : r.current < r.active)
    (done : r.retire r.current = .ok r') (listed : r'.Listed q) :
    r.Listed q ∧ r'.ahead q ≤ r.ahead q := by
  obtain ⟨pipes, swapped, rfl⟩ := retire_eq done
  obtain ⟨a, b, first, second, after⟩ := ArrayT.swap_ok swapped
  have length := ArrayT.length_swap swapped
  have le := ok.le
  have place := pipes.at_index listed.1
  have early : pipes.index q < r.active - 1 := listed.2
  rw [after, if_neg (by omega)] at place
  by_cases moved : pipes.index q = r.current
  · -- The last of the active pipes takes the free place.
    rw [if_pos moved] at place
    cases place
    have index := r.pipes.indexed _ _ second
    refine ⟨⟨List.mem_of_getElem? second, by omega⟩, ?_⟩
    simp only [ahead]
    split <;> split <;> split <;> omega
  · rw [if_neg moved] at place
    have index := r.pipes.indexed _ _ place
    refine ⟨⟨List.mem_of_getElem? place, by omega⟩, ?_⟩
    simp only [ahead]
    split <;> split <;> split <;> omega

theorem ahead_activated (done : r.activated p = .ok r') (member : p ∈ r.pipes.items)
    (listed : r.Listed q) (other : q ≠ p) : r'.ahead q = r.ahead q := by
  obtain ⟨pipes, swapped, rfl⟩ := activated_eq done
  have place := r.pipes.at_index listed.1
  have early := listed.2
  have elsewhere : r.pipes.index q ≠ r.pipes.index p := by
    intro same
    rw [same, r.pipes.at_index member] at place
    exact other (Option.some.inj place).symm
  rw [← ArrayT.getElem?_of_swap swapped elsewhere (by omega)] at place
  have index := pipes.indexed _ _ place
  have length := ArrayT.length_swap swapped
  simp only [ahead, index, length]

omit [DecidableEq ι] in
theorem ahead_next (turn : r.turn p) (ok : r.Ok) (listed : r.Listed q) (other : q ≠ p) :
    ahead { r with current := (r.current + 1) % r.active } q < r.ahead q := by
  obtain ⟨inside, here⟩ := turn
  have elsewhere : r.pipes.index q ≠ r.current := by
    intro same
    have place := r.pipes.at_index listed.1
    rw [same] at place
    exact other (Option.some.inj (place.symm.trans here))
  have early := listed.2
  have le := ok.le
  simp only [ahead]
  by_cases last : r.current + 1 = r.active
  · rw [last, Nat.mod_self]
    split <;> split <;> omega
  · rw [Nat.mod_eq_of_lt (by omega)]
    split <;> split <;> omega

end Rota

namespace Fq

variable {ι : Type} [DecidableEq ι] {fq fq' : Fq ι} {pair pair' : ι → Pair} {p q : ι} {msg : Msg}
  {got : Option (ι × Msg)} {b : Bool}

def completed (log : List (ι × Msg)) : Nat := log.countP fun x => !x.2.more

omit [DecidableEq ι] in
theorem listed_fetched : (fq.fetched p msg).Listed q ↔ fq.Listed q := by
  unfold fetched
  split <;> rfl

omit [DecidableEq ι] in
theorem ahead_fetched (turn : fq.turn p) (ok : fq.toRota.Ok) (listed : fq.Listed q)
    (other : q ≠ p) : completed [(p, msg)] + (fq.fetched p msg).ahead q ≤ fq.ahead q := by
  have nearer := Rota.ahead_next turn ok listed other
  unfold fetched
  cases more : msg.more with
  | true => simp [completed, more]
  | false =>
    simp only [completed, List.countP_singleton, more]
    exact (Nat.add_comm _ _).trans_le nearer

theorem Fetches.ahead (fetches : Fetches fq pair got fq' pair') (ok : fq.toRota.Ok)
    (listed : fq'.Listed q) : fq.Listed q ∧
      ((∃ m, got = some (q, m)) ∨ completed got.toList + fq'.ahead q ≤ fq.ahead q) := by
  induction fetches with
  | nothing => exact ⟨listed, .inr (by simp [completed])⟩
  | @frame fq pair p msg t turn reading =>
    rw [listed_fetched] at listed
    by_cases same : q = p
    · subst same
      exact ⟨listed, .inl ⟨msg, rfl⟩⟩
    · exact ⟨listed, .inr (ahead_fetched turn ok listed same)⟩
  | retired idle turn reading retired _ ih =>
    obtain ⟨listed, near⟩ := ih (ok.retire retired) listed
    obtain ⟨listed, le⟩ := ok.ahead_retire turn.1 retired listed
    exact ⟨listed, near.imp_right fun near => near.trans le⟩

theorem Looks.ahead (looks : Looks fq pair b fq' pair') (ok : fq.toRota.Ok)
    (listed : fq'.Listed q) : fq.Listed q ∧ fq'.ahead q ≤ fq.ahead q := by
  induction looks with
  | nothing | ready => exact ⟨listed, le_rfl⟩
  | retired turn reading retired _ ih =>
    obtain ⟨listed, near⟩ := ih (ok.retire retired) listed
    obtain ⟨listed, le⟩ := ok.ahead_retire turn.1 retired listed
    exact ⟨listed, near.trans le⟩

end Fq

namespace FairQueue

variable {ι : Type} [DecidableEq ι] {s t u : FairQueue ι} {q : ι} {a : Action ι}

/-- No pipe comes or goes. -/
def keeps (s : FairQueue ι) : Action ι → Prop
  | .attach _ => False
  | .deliver pipe => ¬ s.leaving pipe
  | _ => True

instance (s : FairQueue ι) : DecidablePred s.keeps := fun a => by
  induction a using Action.casesOn <;> dsimp only [keeps] <;> infer_instance

/-- The pipe `q` is active, and every pipe stays. -/
def Awaits (q : ι) (s : FairQueue ι) (a : Action ι) : Prop :=
  s.Steady a ∧ s.fq.Listed q ∧ ((s.pair q).pipe .first).inActive = true ∧ s.keeps a

instance : Decidable (s.Awaits q a) := inferInstanceAs (Decidable (_ ∧ _ ∧ _ ∧ _))

/-- What happens to a pipe that waits for its turn. -/
def Passes (q : ι) (s t : FairQueue ι) : Prop :=
  ∃ new, t.log = s.log ++ new ∧ ((∃ m, (q, m) ∈ new) ∨
    (t.fq.Listed q → s.fq.Listed q ∧ Fq.completed new + t.fq.ahead q ≤ s.fq.ahead q))

omit [DecidableEq ι] in
theorem Passes.silent {fq : Fq ι} {pair : ι → Pair}
    (near : fq.Listed q → s.fq.Listed q ∧ fq.ahead q ≤ s.fq.ahead q) :
    s.Passes q { s with fq := fq, pair := pair } :=
  ⟨[], (List.append_nil _).symm, .inr (by simpa [Fq.completed] using near)⟩

omit [DecidableEq ι] in
theorem Passes.trans (first : s.Passes q t) (listed : t.fq.Listed q) (next : t.Passes q u) :
    s.Passes q u := by
  obtain ⟨new, log, first⟩ := first
  obtain ⟨new', log', next⟩ := next
  refine ⟨new ++ new', by rw [log', log, List.append_assoc], ?_⟩
  rcases first with ⟨m, served⟩ | waits
  · exact .inl ⟨m, List.mem_append_left _ served⟩
  · rcases next with ⟨m, served⟩ | waits'
    · exact .inl ⟨m, List.mem_append_right _ served⟩
    · refine .inr fun listed' => ⟨(waits listed).1, ?_⟩
      have near := (waits listed).2
      have near' := (waits' listed').2
      simp only [Fq.completed, List.countP_append] at *
      omega

theorem Inv.passes (inv : s.Inv) (awaits : s.Awaits q a) (taken : s.step a = .ok t) :
    s.Passes q t := by
  obtain ⟨⟨allowed, -⟩, listed, awake, keeps⟩ := awaits
  cases a with
  | attach i => exact keeps.elim
  | recvpipe =>
    obtain ⟨⟨got, fq, pair⟩, done, ⟨⟩⟩ := bind_ok.mp taken
    have fetches := Fq.fetch_fetches rfl (.of_taking inv.serves) done
    refine ⟨got.toList, rfl, or_iff_not_imp_left.mpr fun other listed => ?_⟩
    obtain ⟨listed, ⟨m, rfl⟩ | near⟩ := fetches.ahead inv.serves.ok listed
    · exact absurd ⟨m, by simp⟩ other
    · exact ⟨listed, near⟩
  | hasIn =>
    obtain ⟨⟨b, fq, pair⟩, done, ⟨⟩⟩ := bind_ok.mp taken
    obtain ⟨rfl, rfl⟩ | ⟨-, looks⟩ := Fq.hasIn_looks (.of_taking inv.serves) done
    · exact .silent fun listed => ⟨listed, le_rfl⟩
    · exact .silent (looks.ahead inv.serves.ok)
  | call i a | peer i a =>
    obtain ⟨t, done, rfl⟩ := bind_return.mp taken
    exact .silent fun listed => ⟨listed, le_rfl⟩
  | deliver i =>
    obtain ⟨⟨t, event⟩, done, taken⟩ := bind_ok.mp taken
    obtain ⟨fq, reacts, rfl⟩ := bind_return.mp taken
    obtain ⟨member, waiting, -⟩ := allowed
    obtain ⟨c, rest, at_head, receiving, -⟩ := (inv.serves.holds i).sound.receiving waiting done
    cases receiving with
    | readWoken asleep =>
      obtain ⟨r, woken, rfl⟩ := bind_return.mp reacts
      refine .silent fun _ => ⟨listed, (Rota.ahead_activated woken member listed ?_).le⟩
      rintro rfl
      rw [Pair.setMailbox_pipe, awake] at asleep
      cases asleep
    | leaves | answersAndLeaves => exact absurd (by simp [leaving, at_head]) keeps
    | _ =>
      obtain rfl : s.fq = fq := by simpa [react] using reacts
      exact .silent fun listed => ⟨listed, le_rfl⟩

/-- While a pipe stays active and none comes or goes, fewer messages than there are pipes are taken
    from the others before its turn, whatever is written or woken meanwhile. -/
theorem active_pipe_is_not_passed_over (hwms : ι → End → Int) (q : ι)
    (reached : Reaches step Steady (start hwms) s) (run : Reaches step (Awaits q) s t)
    (listed : t.fq.Listed q) :
    ∃ new, t.log = s.log ++ new ∧
      ((∃ m, (q, m) ∈ new) ∨ Fq.completed new < s.fq.pipes.items.length) := by
  have inv : s.Inv := reached.invariant (.start hwms) fun _ _ _ inv steady taken =>
    inv.step steady taken
  obtain ⟨-, new, log, rest⟩ := run.invariant (P := fun t => t.Inv ∧ s.Passes q t)
    ⟨inv, .silent fun listed => ⟨listed, le_rfl⟩⟩ fun _ _ _ both awaits taken =>
      ⟨both.1.step awaits.1 taken, both.2.trans awaits.2.1 (both.1.passes awaits taken)⟩
  refine ⟨new, log, rest.imp_right fun waits => ?_⟩
  obtain ⟨listed, near⟩ := waits listed
  have := inv.serves.ok.ahead_lt listed
  omega

theorem active_pipe_is_not_passed_over_by_two :
    ∃ s t : FairQueue (Fin 3), Reaches step (Awaits 2) s t ∧ t.log.map Prod.fst = [0, 1] ∧
      ∃ new, t.log = s.log ++ new ∧
        ((∃ m, (2, m) ∈ new) ∨ Fq.completed new < s.fq.pipes.items.length) := by
  obtain ⟨s, reached, next⟩ := exists_reaches step Steady (start fun _ _ => 5)
    [.attach 0, .attach 1, .attach 2]
    (fun s : FairQueue (Fin 3) => (follow step (Awaits 2) s
      [.peer 0 (.write {} true), .peer 0 .flush, .peer 1 (.write {} true), .peer 1 .flush,
        .recvpipe, .recvpipe]).any
      (fun t => decide (t.fq.Listed 2 ∧ t.log.map Prod.fst = [0, 1])) = true)
    (by decide +kernel)
  obtain ⟨t, run, listed, log⟩ := exists_reaches _ _ _ _ _ next
  exact ⟨s, t, run, log, active_pipe_is_not_passed_over _ 2 reached run listed⟩

end FairQueue

end Zmq
