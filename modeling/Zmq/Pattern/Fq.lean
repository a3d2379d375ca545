import Zmq.Pattern.Rota
import Zmq.Pipe.Stream
import Zmq.Pipe.Termination

/-! # The fair queue

`fq_t` takes messages from the pipes of its socket in turn, frame by frame. As in the
load balancer, the pipe a half-read message comes from is known by its position only, and
removing another pipe can make that position wrong.
-/

namespace Zmq

open Lib Function

structure Fq (ι : Type) extends Rota ι where
  lastIn : Option ι
  more : Bool

namespace Fq

variable {ι : Type} [DecidableEq ι] {n : Nat} {b : Bool} {r : Rota ι}

def empty : Fq ι := { Rota.empty with lastIn := none, more := false }

def attach (fq : Fq ι) (pipe : ι) : Except Fault (Fq ι) :=
  if there : pipe ∈ fq.pipes.items then .error .attachedTwice
  else do
    let pipes ← (fq.pipes.pushBack pipe there).swap fq.active fq.pipes.items.length
    .ok { fq with pipes := pipes, active := fq.active + 1 }

def activated (fq : Fq ι) (pipe : ι) : Except Fault (Fq ι) := do
  let r ← fq.toRota.activated pipe
  .ok { fq with toRota := r }

def pipeTerminated (fq : Fq ι) (pipe : ι) : Except Fault (Fq ι) := do
  let r ← fq.toRota.pipeTerminated pipe
  .ok { fq with toRota := r, lastIn := if fq.lastIn = some pipe then none else fq.lastIn }

def fetched (fq : Fq ι) (pipe : ι) (msg : Msg) : Fq ι :=
  if msg.more then { fq with more := true }
  else { fq with more := false, lastIn := some pipe, current := (fq.current + 1) % fq.active }

/-- The loop of `recvpipe`; the number is `_active`. -/
def fetch : Nat → Fq ι → (ι → Pair) → Except Fault (Option (ι × Msg) × Fq ι × (ι → Pair))
  | 0, fq, pair => .ok (none, fq, pair)
  | n + 1, fq, pair => do
      let pipe ← fq.currentPipe
      let (msg, s) ← (pair pipe).read .first
      match msg with
      | some msg => .ok (some (pipe, msg), fq.fetched pipe msg, update pair pipe s)
      | none =>
        if fq.more then .error (.assertion .recvpipe)
        else do
          let r ← fq.toRota.retire fq.current
          fetch n { fq with toRota := r } (update pair pipe s)

/-- `fq_t::recvpipe`; nothing is EAGAIN. -/
def recvpipe (fq : Fq ι) (pair : ι → Pair) : Except Fault (Option (ι × Msg) × Fq ι × (ι → Pair)) :=
  fetch fq.active fq pair

/-- The loop of `has_in`; the number is `_active`. -/
def anyReadable : Nat → Fq ι → (ι → Pair) → Except Fault (Bool × Fq ι × (ι → Pair))
  | 0, fq, pair => .ok (false, fq, pair)
  | n + 1, fq, pair => do
      let pipe ← fq.currentPipe
      let (readable, s) ← (pair pipe).checkRead .first
      if readable then .ok (true, fq, update pair pipe s)
      else do
        let r ← fq.toRota.retire fq.current
        anyReadable n { fq with toRota := r } (update pair pipe s)

def hasIn (fq : Fq ι) (pair : ι → Pair) : Except Fault (Bool × Fq ι × (ι → Pair)) :=
  if fq.more then .ok (true, fq, pair) else anyReadable fq.active fq pair

/-! ## The loops -/

variable {fq fq' : Fq ι} {pair pair' : ι → Pair} {p q : ι} {msg : Msg} {t : Pair}

/-- A run of the loop of `recvpipe`. In the middle of a message it does not go round. -/
inductive Fetches :
    Fq ι → (ι → Pair) → Option (ι × Msg) → Fq ι → (ι → Pair) → Prop where
  | nothing {fq : Fq ι} {pair : ι → Pair} : fq.active = 0 → Fetches fq pair none fq pair
  | frame {fq : Fq ι} {pair : ι → Pair} {p : ι} {msg : Msg} {t : Pair} : fq.turn p →
      (pair p).Reading .first (some msg) t →
      Fetches fq pair (some (p, msg)) (fq.fetched p msg) (update pair p t)
  | retired {fq fq' : Fq ι} {pair pair' : ι → Pair} {p : ι} {t : Pair} {r : Rota ι}
      {got : Option (ι × Msg)} : fq.more = false → fq.turn p →
      (pair p).Reading .first none t → fq.toRota.retire fq.current = .ok r →
      Fetches { fq with toRota := r } (update pair p t) got fq' pair' →
      Fetches fq pair got fq' pair'

inductive Looks : Fq ι → (ι → Pair) → Bool → Fq ι → (ι → Pair) → Prop where
  | nothing {fq : Fq ι} {pair : ι → Pair} : fq.active = 0 → Looks fq pair false fq pair
  | ready {fq : Fq ι} {pair : ι → Pair} {p : ι} {t : Pair} : fq.turn p →
      (pair p).checkRead .first = .ok (true, t) →
      Looks fq pair true fq (update pair p t)
  | retired {fq fq' : Fq ι} {pair pair' : ι → Pair} {p : ι} {t : Pair} {r : Rota ι} {b : Bool} :
      fq.turn p → (pair p).Reading .first none t → fq.toRota.retire fq.current = .ok r →
      Looks { fq with toRota := r } (update pair p t) b fq' pair' →
      Looks fq pair b fq' pair'

/-- The pipes are there and their handshakes in order. -/
abbrev Runs (fq : Fq ι) (pair : ι → Pair) : Prop := fq.Serves pair fun _ s => s.Sound

omit [DecidableEq ι] in
theorem Runs.turn (runs : fq.Runs pair) (pos : 0 < fq.active) :
    ∃ p, fq.currentPipe = .ok p ∧ fq.turn p := by
  have within := runs.ok.within_of_pos pos
  have := runs.ok.le
  have here : fq.current? = some _ := List.getElem?_eq_getElem (by omega)
  exact ⟨_, Rota.currentPipe_ok.mpr here, within, here⟩

omit [DecidableEq ι] in
theorem Runs.checkRead (runs : fq.Runs pair) (turn : fq.turn p)
    (ends : (pair p).checkRead .first = .ok (b, t)) : (pair p).Outcome .first .checkRead t := by
  have stays := runs.at_turn turn
  have taken : (pair p).step (.first, .checkRead) = .ok t := by
    simp [Pair.step, ends, Except.map]
  exact (runs.holds p).outcome (by simpa [Pair.CanAct] using stays) (by simp [Action.tells]) taken

theorem Runs.retired (runs : fq.Runs pair) {got : Option Msg} (turn : fq.turn p)
    (reading : (pair p).Reading .first got t) (retired : fq.toRota.retire fq.current = .ok r) :
    Runs { fq with toRota := r } (update pair p t) := by
  have stays := runs.at_turn turn
  refine (runs.use (fun _ => ((Pair.Outcome.read reading).deleted nofun).trans stays) ?_
    fun _ _ => id).move (runs.ok.retire retired) fun i => (Rota.mem_retire retired).mp
  exact (Pair.Outcome.read reading).sound (runs.holds p) (by simpa [Pair.CanAct] using stays)

theorem Runs.retire (runs : fq.Runs pair) {got : Option Msg} (turn : fq.turn p)
    (reading : (pair p).Reading .first got t) : ∃ r, fq.toRota.retire fq.current = .ok r ∧
      r.active = fq.active - 1 ∧ Runs { fq with toRota := r } (update pair p t) := by
  obtain ⟨r, retired⟩ := runs.ok.retire_total turn.1
  refine ⟨r, retired, ?_, runs.retired turn reading retired⟩
  obtain ⟨pipes, -, rfl⟩ := Rota.retire_eq retired
  rfl

theorem fetch_ends (enough : fq.active = n) (runs : fq.Runs pair) :
    (∃ got fq' pair', fetch n fq pair = .ok (got, fq', pair') ∧ Fetches fq pair got fq' pair') ∨
      (∃ e, fetch n fq pair = .error e) ∧ fq.more = true ∧
        ∃ p t, fq.turn p ∧ (pair p).Reading .first none t := by
  induction n generalizing fq pair with
  | zero => exact .inl ⟨_, _, _, rfl, .nothing enough⟩
  | succ n ih =>
    obtain ⟨p, here, turn⟩ := runs.turn (by omega)
    obtain ⟨r, t, ends, reading⟩ :=
      (runs.holds p).read (runs.at_turn turn)
    rw [fetch, here, ok_bind, ends, ok_bind]
    cases r with
    | some msg => exact .inl ⟨_, _, _, rfl, .frame turn reading⟩
    | none =>
      cases more : fq.more with
      | true => exact .inr ⟨⟨_, rfl⟩, rfl, p, t, turn, reading⟩
      | false =>
        obtain ⟨r', retired, active, next⟩ := runs.retire turn reading
        rcases ih (by simp only; omega) next with ⟨got, fq', pair', done, fetches⟩ | ⟨-, midway, -⟩
        · refine .inl ⟨got, fq', pair', ?_, .retired more turn reading retired fetches⟩
          simpa [more, retired] using done
        · simp [more] at midway

theorem fetch_total (enough : fq.active = n) (runs : fq.Runs pair)
    (whole : fq.more = true → ∀ p t, fq.turn p → ¬ (pair p).Reading .first none t) :
    ∃ got fq' pair', fetch n fq pair = .ok (got, fq', pair') ∧ Fetches fq pair got fq' pair' := by
  refine (fetch_ends enough runs).resolve_right ?_
  rintro ⟨-, more, p, t, turn, reading⟩
  exact whole more p t turn reading

variable {got : Option (ι × Msg)}

theorem fetch_fetches (enough : fq.active = n) (runs : fq.Runs pair)
    (done : fetch n fq pair = .ok (got, fq', pair')) : Fetches fq pair got fq' pair' := by
  rcases fetch_ends enough runs with ⟨_, _, _, ran, fetches⟩ | ⟨⟨e, failed⟩, -⟩
  · cases ran.symm.trans done
    exact fetches
  · cases failed.symm.trans done

theorem anyReadable_total (enough : fq.active = n) (runs : fq.Runs pair) :
    ∃ b fq' pair', anyReadable n fq pair = .ok (b, fq', pair') ∧ Looks fq pair b fq' pair' := by
  induction n generalizing fq pair with
  | zero => exact ⟨_, _, _, rfl, .nothing enough⟩
  | succ n ih =>
    obtain ⟨p, here, turn⟩ := runs.turn (by omega)
    obtain ⟨b, t, ends, looked⟩ :=
      (runs.holds p).checkRead (runs.at_turn turn)
    cases b with
    | true => exact ⟨_, _, _, by rw [anyReadable, here, ok_bind, ends]; rfl, .ready turn ends⟩
    | false =>
      have reading : (pair p).Reading .first none t := by simpa using looked
      obtain ⟨r', retired, active, next⟩ := runs.retire turn reading
      obtain ⟨b, fq', pair', done, looks⟩ := ih (by simp only; omega) next
      refine ⟨b, fq', pair', ?_, .retired turn reading retired looks⟩
      rw [anyReadable, here, ok_bind, ends, ok_bind]
      simpa [retired] using done

theorem Looks.keeps_more (looks : Looks fq pair b fq' pair') : fq'.more = fq.more := by
  induction looks with
  | nothing | ready => rfl
  | retired _ _ _ _ same => exact same

theorem hasIn_looks (runs : fq.Runs pair) (done : fq.hasIn pair = .ok (b, fq', pair')) :
    fq' = fq ∧ pair' = pair ∨ fq.more = false ∧ Looks fq pair b fq' pair' := by
  unfold hasIn at done
  split at done
  · cases done
    exact .inl ⟨rfl, rfl⟩
  · rename_i idle
    obtain ⟨_, _, _, ends, looks⟩ := anyReadable_total rfl runs
    cases ends.symm.trans done
    exact .inr ⟨by simpa using idle, looks⟩

/-- What is known of every pipe: the frames taken from it. -/
def Taking (taken : ι → List Msg) (i : ι) (s : Pair) : Prop := s.Consumes .first (taken i)

variable {taken : ι → List Msg}

omit [DecidableEq ι] in
theorem Runs.of_taking (serves : fq.Serves pair (Taking taken)) : fq.Runs pair :=
  ⟨serves.ok, serves.stays, fun i => (serves.holds i).sound⟩

theorem Taking.retire (serves : fq.Serves pair (Taking taken)) (turn : fq.turn p)
    (reading : (pair p).Reading .first none t) (retired : fq.toRota.retire fq.current = .ok r) :
    r.Serves (update pair p t) (Taking taken) := by
  have stays := serves.at_turn turn
  have consumes := (serves.holds p).read stays reading
  rw [Option.toList_none, List.append_nil] at consumes
  exact (serves.use (fun _ => ((Pair.Outcome.read reading).deleted nofun).trans stays) consumes
    fun _ _ => id).move (serves.ok.retire retired) fun i => (Rota.mem_retire retired).mp

inductive Fetched (taken : ι → List Msg) (fq : Fq ι) :
    Option (ι × Msg) → Fq ι → (ι → Pair) → Prop where
  | none {fq' : Fq ι} {pair' : ι → Pair} : fq.more = false → fq'.more = false →
      fq'.Serves pair' (Taking taken) → Fetched taken fq none fq' pair'
  | some {fq' : Fq ι} {pair' : ι → Pair} {p : ι} {msg : Msg} {t : Pair} :
      (fq.more = true → fq.turn p) → fq'.turn p → fq'.Serves pair' (Taking taken) →
      (pair' p).Reading .first (some msg) t →
      Fetched taken fq (some (p, msg)) (fq'.fetched p msg) (update pair' p t)

theorem Fetches.fetched (fetches : Fetches fq pair got fq' pair')
    (serves : fq.Serves pair (Taking taken)) (inside : fq.more = true → 0 < fq.active) :
    Fetched taken fq got fq' pair' := by
  induction fetches with
  | @nothing fq pair none_left =>
    have idle : fq.more = false := by
      by_contra more
      have := inside (by simpa using more)
      omega
    exact .none idle idle serves
  | frame turn reading => exact .some (fun _ => turn) turn serves reading
  | retired idle turn reading retired _ ih =>
    cases ih (Taking.retire serves turn reading retired) (by simp [idle]) with
    | none _ more serves => exact .none idle more serves
    | some _ turn serves reading => exact .some (by simp [idle]) turn serves reading

theorem fetch_fetched (enough : fq.active = n) (serves : fq.Serves pair (Taking taken))
    (inside : fq.more = true → 0 < fq.active)
    (done : fetch n fq pair = .ok (got, fq', pair')) : Fetched taken fq got fq' pair' :=
  (fetch_fetches enough (.of_taking serves) done).fetched serves inside

theorem Looks.serves (looks : Looks fq pair b fq' pair')
    (serves : fq.Serves pair (Taking taken)) : fq'.Serves pair' (Taking taken) := by
  induction looks with
  | nothing => exact serves
  | @ready fq pair p t turn ends =>
    have stays := serves.at_turn turn
    have outcome := (Runs.of_taking serves).checkRead turn ends
    exact serves.use (fun _ => (outcome.deleted nofun).trans stays)
      ((serves.holds p).reader (a := .checkRead) stays outcome nofun nofun) fun _ _ => id
  | retired turn reading retired _ ih => exact ih (Taking.retire serves turn reading retired)

section

omit [DecidableEq ι]

@[simp] theorem fetched_pipes : (fq.fetched p msg).pipes = fq.pipes := by
  unfold fetched; split <;> rfl

@[simp] theorem fetched_more : (fq.fetched p msg).more = msg.more := by
  unfold fetched
  split
  · simp_all
  · simp_all

theorem ok_fetched (ok : fq.toRota.Ok) (turn : fq.turn p) : (fq.fetched p msg).toRota.Ok := by
  unfold fetched
  split
  · exact ok
  · exact ⟨ok.le, .inl (Nat.mod_lt _ (Nat.zero_lt_of_lt turn.1))⟩

theorem turn_fetched (turn : fq.turn p) (announces : msg.more = true) :
    (fq.fetched p msg).turn p := by
  rw [fetched, if_pos announces]
  exact turn

end

/-! ## Attaching -/

theorem attach_eq (done : fq.attach p = .ok fq') :
    ∃ (there : p ∉ fq.pipes.items) (pipes : ArrayT ι),
      (fq.pipes.pushBack p there).swap fq.active fq.pipes.items.length = .ok pipes ∧
        fq' = { fq with pipes := pipes, active := fq.active + 1 } := by
  unfold attach at done
  split at done
  · cases done
  · obtain ⟨pipes, swapped, same⟩ := bind_ok.mp done
    exact ⟨_, pipes, swapped, (Except.ok.inj same).symm⟩

theorem ok_attach (ok : fq.toRota.Ok) (done : fq.attach p = .ok fq') : fq'.toRota.Ok := by
  obtain ⟨there, pipes, swapped, rfl⟩ := attach_eq done
  have longer := ArrayT.length_swap swapped
  simp only [ArrayT.pushBack, List.length_append, List.length_singleton] at longer
  have := ok.le
  have := ok.within
  exact ⟨by simp only; omega, .inl (by simp only; omega)⟩

theorem mem_attach (done : fq.attach p = .ok fq') :
    q ∈ fq'.pipes.items ↔ q ∈ fq.pipes.items ∨ q = p := by
  obtain ⟨there, pipes, swapped, rfl⟩ := attach_eq done
  rw [ArrayT.mem_swap swapped]
  simp [ArrayT.pushBack]

theorem turn_attach (ok : fq.toRota.Ok) (done : fq.attach p = .ok fq') (turn : fq.turn q) :
    fq'.turn q := by
  obtain ⟨there, pipes, swapped, rfl⟩ := attach_eq done
  obtain ⟨inside, here⟩ := turn
  have := ok.le
  have kept : pipes.items[fq.current]? = fq.pipes.items[fq.current]? := by
    rw [ArrayT.getElem?_of_swap swapped (by omega) (by omega), ArrayT.pushBack,
      List.getElem?_append_left (by omega)]
  exact ⟨Nat.lt_succ_of_lt inside, kept.trans here⟩

end Fq

/-- A fair queue with its pipes, whose first ends it reads from. `log` is what `recvpipe`
    has returned, oldest first. -/
structure FairQueue (ι : Type) where
  fq : Fq ι
  pair : ι → Pair
  log : List (ι × Msg)

namespace FairQueue

variable {ι : Type} [DecidableEq ι] {pair : ι → Pair} {a : Zmq.Action}

def start (hwms : ι → End → Int) : FairQueue ι where
  fq := .empty
  pair i := .attached (hwms i) fun _ => false
  log := []

inductive Action (ι : Type) where
  | attach (pipe : ι)
  | recvpipe
  | hasIn
  | call (pipe : ι) (a : Zmq.Action)
  | deliver (pipe : ι)
  | peer (pipe : ι) (a : Zmq.Action)

/-- What the socket does when a pipe calls it back. -/
def react (fq : Fq ι) (pipe : ι) : Option Event → Except Fault (Fq ι)
  | some .readActivated => fq.activated pipe
  | some .pipeTerminated => fq.pipeTerminated pipe
  | _ => .ok fq

def step (s : FairQueue ι) : Action ι → Except Fault (FairQueue ι)
  | .attach pipe => do
      let fq ← s.fq.attach pipe
      .ok { s with fq := fq }
  | .recvpipe => do
      let (got, fq, pair) ← s.fq.recvpipe s.pair
      .ok { fq := fq, pair := pair, log := s.log ++ got.toList }
  | .hasIn => do
      let (_, fq, pair) ← s.fq.hasIn s.pair
      .ok { s with fq := fq, pair := pair }
  | .call pipe a => do
      let t ← (s.pair pipe).step (.first, a)
      .ok { s with pair := update s.pair pipe t }
  | .deliver pipe => do
      let (t, event) ← (s.pair pipe).deliver .first
      let fq ← react s.fq pipe event
      .ok { s with fq := fq, pair := update s.pair pipe t }
  | .peer pipe a => do
      let t ← (s.pair pipe).step (.second, a)
      .ok { s with pair := update s.pair pipe t }

variable (s : FairQueue ι)

/-- The next command for the socket's end of this pipe is its last. -/
def leaving (pipe : ι) : Prop :=
  ((s.pair pipe).mailbox .first).head? = some .pipeTermAck
  deriving Decidable

/-- The socket attaches a pipe once and reads from it through the fair queue only. A pipe
    does not leave while a message is read from it. -/
def Allowed : Action ι → Prop
  | .attach pipe => ((s.pair pipe).pipe .first).deleted = false
  | .recvpipe => True
  | .hasIn => True
  | .call pipe a => pipe ∈ s.fq.pipes.items ∧ (s.pair pipe).Considerate (.first, a) ∧
      a ≠ .read ∧ a ≠ .checkRead ∧ a ≠ .hiccup ∧ a ≠ .deliver
  | .deliver pipe => pipe ∈ s.fq.pipes.items ∧ (s.pair pipe).mailbox .first ≠ [] ∧
      (s.leaving pipe → s.fq.more = true → ¬ s.fq.turn pipe)
  | .peer pipe a => (s.pair pipe).Considerate (.second, a)

/-- No pipe leaves in the middle of a message in a way that loses the position of the
    current one. -/
def Steady (a : Action ι) : Prop :=
  s.Allowed a ∧ match a with
    | .deliver pipe => s.leaving pipe → s.fq.more = true → ¬ s.fq.displaces pipe
    | _ => True

instance : DecidablePred s.Allowed := fun a => by
  cases a <;> dsimp only [Allowed] <;> infer_instance

instance (a : Action ι) : Decidable (s.Steady a) := by
  cases a <;> dsimp only [Steady] <;> infer_instance

/-! ## Messages come from one pipe -/

def received (log : List (ι × Msg)) (i : ι) : List Msg := (log.filter (·.1 = i)).map (·.2)

/-- A frame that announces another one is followed by a frame of the same pipe, and what
    came from a pipe is what was in it, in order and without gaps. -/
def Unmixed : Prop :=
  s.log.IsChain (fun x y => x.2.more = true → y.1 = x.1) ∧
    ∀ i k q, (s.pair i).queue .first k = some q → q.taken = received s.log i

structure Inv (s : FairQueue ι) : Prop where
  serves : s.fq.Serves s.pair (Fq.Taking (received s.log))
  chain : s.log.IsChain fun x y => x.2.more = true → y.1 = x.1
  last : ∀ x, s.log.getLast? = some x → x.2.more = true → s.fq.more = true ∧ s.fq.turn x.1
  inside : s.fq.more = true → ∃ i, s.fq.turn i
  ready : s.fq.more = true → ∀ i, s.fq.turn i → ((s.pair i).pipe .first).inActive = true

variable {s : FairQueue ι} {i p : ι} {t : Pair} {fq : Fq ι} {msg : Msg}

theorem react_more {fq' : Fq ι} {event : Option Event} (reacts : react fq i event = .ok fq') :
    fq'.more = fq.more := by
  unfold react at reacts
  split at reacts
  · obtain ⟨r, -, rfl⟩ := bind_return.mp reacts
    rfl
  · obtain ⟨r, -, rfl⟩ := bind_return.mp reacts
    rfl
  · cases reacts
    rfl

theorem received_append (log : List (ι × Msg)) (i : ι) :
    received (log ++ [(p, msg)]) i = received log i ++ if p = i then [msg] else [] := by
  by_cases same : p = i <;> simp [received, same]

namespace Inv

theorem unmixed (inv : s.Inv) : s.Unmixed :=
  ⟨inv.chain, fun i k q found => (inv.serves.holds i).queue k q found⟩

theorem start (hwms : ι → End → Int) : (start hwms).Inv where
  serves :=
    { ok := ⟨Nat.le_refl _, .inr ⟨rfl, rfl⟩⟩
      stays := nofun
      holds := fun i => Pair.Consumes.attached (hwms i) }
  chain := .nil
  last := nofun
  inside := nofun
  ready := nofun

section

variable (inv : s.Inv)
include inv

theorem pipe (stays : i ∈ s.fq.pipes.items → (t.pipe .first).deleted = false)
    (consumes : t.Consumes .first (received s.log i))
    (ready : s.fq.more = true → s.fq.turn i → (t.pipe .first).inActive = true) :
    Inv { s with pair := update s.pair i t } where
  serves := inv.serves.use stays consumes fun _ _ => id
  chain := inv.chain
  last := inv.last
  inside := inv.inside
  ready midway j turn := by
    by_cases same : j = i
    · subst same
      simpa using ready midway turn
    · simpa [update_of_ne same] using inv.ready midway j turn

theorem move (more : fq.more = s.fq.more) (ok : fq.toRota.Ok)
    (stays : ∀ j ∈ fq.pipes.items, ((s.pair j).pipe .first).deleted = false)
    (turn : s.fq.more = true → ∀ j, s.fq.turn j → fq.turn j) : Inv { s with fq := fq } where
  serves := ⟨ok, stays, inv.serves.holds⟩
  chain := inv.chain
  last x found announces := by
    obtain ⟨midway, here⟩ := inv.last x found announces
    exact ⟨more.trans midway, turn midway x.1 here⟩
  inside midway := by
    rw [more] at midway
    obtain ⟨q, here⟩ := inv.inside midway
    exact ⟨q, turn midway q here⟩
  ready midway j there := by
    rw [more] at midway
    obtain ⟨q, here⟩ := inv.inside midway
    obtain rfl := Rota.turn_unique there (turn midway q here)
    exact inv.ready midway j here

theorem attach (stays : ((s.pair i).pipe .first).deleted = false)
    (done : s.fq.attach i = .ok fq) : Inv { s with fq := fq } := by
  have more : fq.more = s.fq.more := by
    obtain ⟨there, pipes, swapped, rfl⟩ := Fq.attach_eq done
    rfl
  refine inv.move more (Fq.ok_attach inv.serves.ok done) (fun j member => ?_)
    fun _ j turn => Fq.turn_attach inv.serves.ok done turn
  rcases (Fq.mem_attach done).mp member with old | rfl
  · exact inv.serves.stays j old
  · exact stays

theorem activated (member : i ∈ s.fq.pipes.items) (other : s.fq.more = true → ¬ s.fq.turn i)
    (done : s.fq.activated i = .ok fq) : Inv { s with fq := fq } := by
  obtain ⟨r, woken, rfl⟩ := bind_return.mp done
  refine inv.move rfl (inv.serves.ok.activated woken)
    (fun j there => inv.serves.stays j ((Rota.mem_activated woken).mp there))
    fun midway j turn => Rota.turn_activated woken member turn ?_
  rintro rfl
  exact other midway turn

theorem terminated (member : i ∈ s.fq.pipes.items) (other : s.fq.more = true → ¬ s.fq.turn i)
    (placed : s.fq.more = true → ¬ s.fq.displaces i) (done : s.fq.pipeTerminated i = .ok fq) :
    Inv { s with fq := fq } ∧ i ∉ fq.pipes.items := by
  obtain ⟨r, removed, rfl⟩ := bind_return.mp done
  have members := fun j => Rota.mem_pipeTerminated member removed (q := j)
  refine ⟨inv.move rfl (inv.serves.ok.pipeTerminated member removed)
    (fun j there => inv.serves.stays j ((members j).mp there).1) fun midway j turn => ?_,
    fun still => ((members i).mp still).2 rfl⟩
  refine Rota.turn_pipeTerminated inv.serves.ok member removed turn ?_ (placed midway)
  rintro rfl
  exact other midway turn

theorem recvpipe {got : Option (ι × Msg)} (done : s.fq.recvpipe s.pair = .ok (got, fq, pair)) :
    Inv { fq := fq, pair := pair, log := s.log ++ got.toList } := by
  have inside : s.fq.more = true → 0 < s.fq.active := by
    intro midway
    obtain ⟨q, turn⟩ := inv.inside midway
    exact Nat.zero_lt_of_lt turn.1
  cases Fq.fetch_fetched rfl inv.serves inside done with
  | none idle more serves =>
    rw [Option.toList_none, List.append_nil]
    refine ⟨serves, inv.chain, fun x found announces => ?_, by simp [more], by simp [more]⟩
    have := (inv.last x found announces).1
    simp [idle] at this
  | @some fq₁ pair₁ p msg t was turn serves reading =>
    have stays := serves.at_turn turn
    have ok : fq₁.toRota.Ok := serves.ok
    rw [Option.toList_some]
    have unique {i : ι} (there : (fq₁.fetched p msg).turn i) (announces : msg.more = true) :
        i = p := Rota.turn_unique there (Fq.turn_fetched turn announces)
    refine ⟨?_, ?_, fun x found announces => ?_, fun midway => ?_, fun midway i there => ?_⟩
    · have taken := (serves.holds p).read stays reading
      refine (serves.use (fun _ => ((Pair.Outcome.read reading).deleted nofun).trans stays) ?_
        fun i other consumes => ?_).move (Fq.ok_fetched ok turn) fun i => by simp
      · rwa [Fq.Taking, received_append, if_pos rfl]
      · rwa [Fq.Taking, received_append, if_neg fun same => other same.symm, List.append_nil]
    · refine inv.chain.append (.singleton _) fun x found y head announces => ?_
      cases head
      obtain ⟨midway, here⟩ := inv.last x found announces
      exact Rota.turn_unique (was midway) here
    · obtain rfl : (p, msg) = x := by simpa using found
      exact ⟨by simpa using announces, Fq.turn_fetched turn announces⟩
    · exact ⟨p, Fq.turn_fetched turn (by simpa using midway)⟩
    · obtain rfl := unique there (by simpa using midway)
      cases reading with
      | accepted readable =>
        simp only [Pipe.readable, Bool.and_eq_true] at readable
        simpa using readable.1

theorem hasIn {b : Bool}
    (done : s.fq.hasIn s.pair = .ok (b, fq, pair)) : Inv { s with fq := fq, pair := pair } := by
  obtain ⟨rfl, rfl⟩ | ⟨idle, looks⟩ := Fq.hasIn_looks (.of_taking inv.serves) done
  · exact inv
  · have more := looks.keeps_more.trans idle
    refine ⟨looks.serves inv.serves, inv.chain, fun x found announces => ?_, by simp [more],
      by simp [more]⟩
    have := (inv.last x found announces).1
    simp [idle] at this

theorem deliver {event : Option Event} (member : i ∈ s.fq.pipes.items)
    (waiting : (s.pair i).mailbox .first ≠ [])
    (other : s.leaving i → s.fq.more = true → ¬ s.fq.turn i)
    (placed : s.leaving i → s.fq.more = true → ¬ s.fq.displaces i)
    (done : (s.pair i).deliver .first = .ok (t, event)) (reacts : react s.fq i event = .ok fq) :
    Inv { s with fq := fq, pair := update s.pair i t } := by
  have consumes := inv.serves.holds i
  obtain ⟨c, rest, at_head, receiving, outcome⟩ := consumes.sound.receiving waiting done
  have consumes' := consumes.reader (a := .deliver) waiting outcome nofun nofun
  have ready (midway : s.fq.more = true) (turn : s.fq.turn i) :=
    outcome.inActive nofun nofun (inv.ready midway i turn)
  have stays := inv.serves.stays i member
  cases receiving with
  | readWoken asleep =>
    have elsewhere (midway : s.fq.more = true) (turn : s.fq.turn i) : False := by
      rw [Pair.setMailbox_pipe, inv.ready midway i turn] at asleep
      cases asleep
    exact (inv.pipe (fun _ => by simpa using stays) consumes' ready).activated member elsewhere
      reacts
  | leaves | answersAndLeaves =>
    have last : s.leaving i := by simp [leaving, at_head]
    obtain ⟨next, gone⟩ := inv.terminated member (other last) (placed last) reacts
    exact next.pipe (fun still => absurd still gone) consumes'
      fun _ turn => absurd (Rota.mem_of_turn turn) gone
  | _ =>
    obtain rfl : s.fq = fq := by simpa [react] using reacts
    exact inv.pipe (fun _ => by simpa [Pipe.setHwms] using stays) consumes' ready

theorem call (stays : ((s.pair i).pipe .first).deleted = false)
    (outcome : (s.pair i).Outcome .first a t) (noRead : a ≠ .read) (noCheck : a ≠ .checkRead)
    (noHiccup : a ≠ .hiccup) (call : a ≠ .deliver) : Inv { s with pair := update s.pair i t } := by
  have can : (s.pair i).CanAct (.first, a) := by simpa [Pair.CanAct, call] using stays
  refine inv.pipe (fun _ => ?_) ((inv.serves.holds i).reader can outcome noHiccup noRead)
    fun midway turn => outcome.inActive noRead noCheck (inv.ready midway i turn)
  rw [outcome.deleted call, stays]

theorem peer (fair : (s.pair i).Considerate (.second, a))
    (outcome : (s.pair i).Outcome .second a t) : Inv { s with pair := update s.pair i t } := by
  have untouched : t.pipe .first = (s.pair i).pipe .first := outcome.pipe_peer
  refine inv.pipe (fun member => ?_) ((inv.serves.holds i).writer fair.1 outcome) ?_
  · rw [untouched, inv.serves.stays i member]
  · rw [untouched]
    exact fun midway turn => inv.ready midway i turn

theorem step {s' : FairQueue ι} {a : Action ι} (steady : s.Steady a)
    (taken : s.step a = .ok s') : s'.Inv := by
  obtain ⟨allowed, placed⟩ := steady
  cases a with
  | attach i =>
    obtain ⟨fq, done, rfl⟩ := bind_return.mp taken
    exact inv.attach allowed done
  | recvpipe =>
    obtain ⟨⟨got, fq, pair⟩, done, ⟨⟩⟩ := bind_ok.mp taken
    exact inv.recvpipe done
  | hasIn =>
    obtain ⟨⟨b, fq, pair⟩, done, ⟨⟩⟩ := bind_ok.mp taken
    exact inv.hasIn done
  | call i a =>
    obtain ⟨t, done, rfl⟩ := bind_return.mp taken
    obtain ⟨member, fair, noRead, noCheck, noHiccup, call⟩ := allowed
    have outcome := (inv.serves.holds i).sound.outcome fair.1 fair.silent done
    exact inv.call (inv.serves.stays i member) outcome noRead noCheck noHiccup call
  | deliver i =>
    obtain ⟨⟨t, event⟩, done, taken⟩ := bind_ok.mp taken
    obtain ⟨fq, reacts, rfl⟩ := bind_return.mp taken
    obtain ⟨member, waiting, other⟩ := allowed
    exact inv.deliver member waiting other placed done reacts
  | peer i a =>
    obtain ⟨t, done, rfl⟩ := bind_return.mp taken
    exact inv.peer allowed ((inv.serves.holds i).sound.outcome allowed.1 allowed.silent done)

end

end Inv

/-- In every run in which no removal loses the position of the current pipe in the middle
    of a message, the frames of a message come from one pipe. -/
theorem steady_messages_stay_unmixed (hwms : ι → End → Int) {s : FairQueue ι}
    (reached : Reaches step Steady (start hwms) s) : s.Unmixed :=
  (reached.invariant (P := Inv) (.start hwms)
    fun _ _ _ inv steady taken => inv.step steady taken).unmixed

theorem steady_messages_stay_unmixed_after_leave :
    ∃ s : FairQueue (Fin 3), Reaches step Steady (start fun _ _ => 5) s ∧
      s.log = [(0, { data := [1] }), (1, { flags := MsgFlag.more, data := [2] }),
        (1, { data := [3] })] ∧ s.fq.pipes.items = [2, 1] ∧ s.Unmixed :=
  exists_run_and₂
    [.peer 0 (.write { data := [1] } true), .peer 0 .flush,
      .peer 1 (.write { flags := MsgFlag.more, data := [2] } true),
      .peer 1 (.write { data := [3] } true), .peer 1 .flush,
      .attach 0, .attach 1, .attach 2, .recvpipe, .recvpipe, .call 0 (.terminate false true),
      .peer 0 .deliver, .peer 0 .read, .deliver 0, .recvpipe]
    (by decide +kernel) fun _ reached _ _ => steady_messages_stay_unmixed _ reached

/-- Two messages wait in the first pipe, one in the second, and one of two frames in the
    third. When the second pipe leaves after the first frame of the third was read, the
    next frame comes from the first pipe. -/
theorem leaving_pipe_mixes_messages :
    ∃ s : FairQueue (Fin 3), Reaches step Allowed (start fun _ _ => 5) s ∧
      s.log = [(0, { data := [1] }), (1, { data := [3] }),
        (2, { flags := MsgFlag.more, data := [4] }), (0, { data := [2] })] ∧ ¬ s.Unmixed := by
  refine exists_run_and
    [.peer 0 (.write { data := [1] } true), .peer 0 (.write { data := [2] } true), .peer 0 .flush,
      .peer 1 (.write { data := [3] } true), .peer 1 .flush,
      .peer 2 (.write { flags := MsgFlag.more, data := [4] } true),
      .peer 2 (.write { data := [5] } true), .peer 2 .flush,
      .attach 0, .attach 1, .attach 2, .recvpipe, .recvpipe, .recvpipe,
      .call 1 (.terminate false true), .peer 1 .deliver, .peer 1 .read, .deliver 1, .recvpipe]
    (by decide +kernel) fun s _ log unmixed => ?_
  have chain := unmixed.1
  rw [log] at chain
  revert chain
  decide

end FairQueue

end Zmq
