import Zmq.Pattern.Fq
import Zmq.Pipe.Whole

/-! # A connection lost in the middle of a message

`_more` of `fq_t` says that a message is half read, not which pipe it comes from. If that
pipe stops taking messages before the rest was read, the assertion in `recvpipe` fails; if
it is removed, `has_in` goes on promising frames that are not there.
-/

namespace Zmq

open Lib Function

namespace Fq

variable {ι : Type} [DecidableEq ι] {fq fq' : Fq ι} {pair pair' : ι → Pair} {p : ι}
  {got : Option (ι × Msg)}

theorem whole_update {t : Pair} (whole : ∀ i, (pair i).Whole .first) (own : t.Whole .first) :
    ∀ i, (update pair p t i).Whole .first :=
  (forall_update_iff pair fun _ s => s.Whole .first).mpr ⟨own, fun i _ => whole i⟩

theorem Fetches.whole (fetches : Fetches fq pair got fq' pair')
    (whole : ∀ i, (pair i).Whole .first) : ∀ i, (pair' i).Whole .first := by
  induction fetches with
  | nothing => exact whole
  | @frame fq pair p msg t turn reading =>
    exact whole_update whole ((whole p).reader (.read reading) nofun)
  | @retired fq fq' pair pair' p t r got idle turn reading retired _ ih =>
    apply ih
    exact whole_update whole ((whole p).reader (.read reading) nofun)

theorem Looks.whole {b : Bool} (looks : Looks fq pair b fq' pair') (runs : fq.Runs pair)
    (whole : ∀ i, (pair i).Whole .first) : ∀ i, (pair' i).Whole .first := by
  induction looks with
  | nothing => exact whole
  | @ready fq pair p t turn ends =>
    exact whole_update whole ((whole p).reader (runs.checkRead turn ends) nofun)
  | @retired fq fq' pair pair' p t r b turn reading retired _ ih =>
    apply ih (runs.retired turn reading retired)
    exact whole_update whole ((whole p).reader (.read reading) nofun)

theorem Fetches.of_waiting (fetches : Fetches fq pair got fq' pair') (turn : fq.turn p)
    (waiting : (pair p).Waiting .first) (whole : (pair p).Whole .first) :
    ∃ msg, got = some (p, msg) := by
  cases fetches with
  | nothing none_left =>
    have := turn.1
    omega
  | frame here reading =>
    obtain rfl := Rota.turn_unique here turn
    exact ⟨_, rfl⟩
  | retired _ here reading =>
    obtain rfl := Rota.turn_unique here turn
    obtain ⟨m, ⟨⟩⟩ := waiting.reads whole reading

theorem Looks.waiting (looks : Looks fq pair true fq' pair')
    (free : ∀ i, (pair i).LockFree) : ∃ p, fq'.turn p ∧ (pair' p).Waiting .first := by
  generalize same : true = b at looks
  induction looks with
  | nothing => cases same
  | @ready fq pair p t turn ends =>
    exact ⟨p, turn, by simpa using Pair.Waiting.of_checkRead (free p) ends⟩
  | @retired fq fq' pair pair' p t r b turn reading retired _ ih =>
    apply ih _ same
    refine (forall_update_iff pair fun _ s => s.LockFree).mpr ⟨?_, fun i _ => free i⟩
    exact (free p).outcome (.read reading)

end Fq

namespace FairQueue

variable {ι : Type} [DecidableEq ι]

variable (s : FairQueue ι)

/-- The socket attaches a pipe once and reads from it through the fair queue only. Pipes can
    leave at any time. -/
def Possible : Action ι → Prop
  | .deliver pipe => pipe ∈ s.fq.pipes.items ∧ (s.pair pipe).mailbox .first ≠ []
  | a => s.Allowed a

/-- In the middle of a message the pipe it is read from goes on taking messages, and no
    other pipe leaves in a way that loses the position. -/
def Undisturbed : Action ι → Prop
  | .call pipe a => s.fq.turn pipe → (s.pair pipe).Attentive .first a
  | .deliver pipe => (s.fq.turn pipe → (s.pair pipe).Attentive .first .deliver) ∧
      (s.leaving pipe → ¬ s.fq.displaces pipe)
  | _ => True

/-- The frames come as an engine or another socket writes them. -/
def Fed : Action ι → Prop
  | .peer pipe a => (s.pair pipe).Orderly .second a
  | _ => True

def Careful (a : Action ι) : Prop :=
  s.Possible a ∧ s.Fed a ∧ (s.fq.more = true → s.Undisturbed a)

instance : DecidablePred s.Possible := fun a => by
  induction a using Action.casesOn <;> dsimp only [Possible] <;> infer_instance

instance : DecidablePred s.Undisturbed := fun a => by
  induction a using Action.casesOn <;> dsimp only [Undisturbed] <;> infer_instance

instance : DecidablePred s.Fed := fun a => by
  induction a using Action.casesOn <;> dsimp only [Fed] <;> infer_instance

instance (a : Action ι) : Decidable (s.Careful a) :=
  inferInstanceAs (Decidable (_ ∧ _))

/-- Neither `recvpipe` nor `has_in` aborts, and what `has_in` promises can be read. -/
def Safe : Prop :=
  (∃ got fq pair, s.fq.recvpipe s.pair = .ok (got, fq, pair)) ∧
    ∃ b fq pair, s.fq.hasIn s.pair = .ok (b, fq, pair) ∧
      (b = true → ∃ frame fq' pair', fq.recvpipe pair = .ok (some frame, fq', pair'))

/-- A half-read message can be read to its end. -/
structure Fluent (s : FairQueue ι) : Prop where
  inv : s.Inv
  whole : ∀ i, (s.pair i).Whole .first
  half : s.fq.more = true → ∃ x, s.log.getLast? = some x ∧ x.2.more = true
  listens : s.fq.more = true → ∀ i, s.fq.turn i → ((s.pair i).pipe .first).Listens

variable {s s' : FairQueue ι} {a : Action ι} {i p : ι} {t : Pair} {fq : Fq ι} {pair : ι → Pair}

namespace Fluent

theorem start (hwms : ι → End → Int) : (start hwms).Fluent where
  inv := .start hwms
  whole i := .attached (hwms i)
  half := nofun
  listens := nofun

section

variable (fluent : s.Fluent)
include fluent

theorem runs : s.fq.Runs s.pair := .of_taking fluent.inv.serves

theorem waiting (midway : s.fq.more = true) (turn : s.fq.turn p) : (s.pair p).Waiting .first := by
  obtain ⟨⟨q, m⟩, last, more⟩ := fluent.half midway
  obtain rfl : q = p := Rota.turn_unique (fluent.inv.last _ last more).2 turn
  obtain ⟨before, split⟩ := List.getLast?_eq_some_iff.mp last
  have consumes : (s.pair q).Consumes .first (received s.log q) := fluent.inv.serves.holds q
  rw [split, received_append, if_pos rfl] at consumes
  have readable : ((s.pair q).pipe .first).readable = true :=
    Pipe.readable_iff.mpr ⟨fluent.inv.ready midway q turn, fluent.listens midway q turn⟩
  exact .of_midway (fluent.whole q) consumes (fluent.inv.serves.at_turn turn)
    readable more

theorem safe : s.Safe := by
  have reads {fq : Fq ι} {pair : ι → Pair} (serves : fq.Runs pair)
      (whole : ∀ i, (pair i).Whole .first)
      (ready : fq.more = true → ∀ p, fq.turn p → (pair p).Waiting .first) :
      ∃ got fq' pair', fq.recvpipe pair = .ok (got, fq', pair') ∧
        Fq.Fetches fq pair got fq' pair' := by
    apply Fq.fetch_total rfl serves
    intro midway p t turn reading
    obtain ⟨m, ⟨⟩⟩ := (ready midway p turn).reads (whole p) reading
  constructor
  · obtain ⟨got, fq, pair, done, -⟩ :=
      reads fluent.runs fluent.whole fun midway p turn => fluent.waiting midway turn
    exact ⟨got, fq, pair, done⟩
  · cases midway : s.fq.more with
    | true =>
      refine ⟨true, s.fq, s.pair, by simp [Fq.hasIn, midway], fun _ => ?_⟩
      obtain ⟨got, fq, pair, done, fetches⟩ :=
        reads fluent.runs fluent.whole fun midway p turn => fluent.waiting midway turn
      obtain ⟨p, turn⟩ := fluent.inv.inside midway
      obtain ⟨msg, rfl⟩ := fetches.of_waiting turn (fluent.waiting midway turn) (fluent.whole p)
      exact ⟨_, fq, pair, done⟩
    | false =>
      obtain ⟨b, fq, pair, done, looks⟩ := Fq.anyReadable_total rfl fluent.runs
      refine ⟨b, fq, pair, by simpa [Fq.hasIn, midway] using done, ?_⟩
      rintro rfl
      have whole := looks.whole fluent.runs fluent.whole
      have serves := looks.serves fluent.inv.serves
      obtain ⟨p, turn, waiting⟩ :=
        looks.waiting fun i => (fluent.inv.serves.holds i).free
      obtain ⟨got, fq', pair', read, fetches⟩ := reads (.of_taking serves) whole (by
        rw [looks.keeps_more, midway]
        nofun)
      obtain ⟨msg, rfl⟩ := fetches.of_waiting turn waiting (whole p)
      exact ⟨_, fq', pair', read⟩

theorem steady (careful : s.Careful a) : s.Steady a := by
  obtain ⟨possible, -, undisturbed⟩ := careful
  cases a with
  | deliver i =>
    obtain ⟨member, pending⟩ := possible
    refine ⟨⟨member, pending, fun leaving midway turn => ?_⟩,
      fun leaving midway => (undisturbed midway).2 leaving⟩
    obtain ⟨c, rest, at_head⟩ := List.exists_cons_of_ne_nil pending
    obtain rfl : c = .pipeTermAck := by simpa [FairQueue.leaving, at_head] using leaving
    have listens := fluent.listens midway i turn
    obtain ⟨ev, t, -, receiving⟩ := (fluent.inv.serves.holds i).sound.deliver at_head
    cases receiving with
    | leaves state | answersAndLeaves state =>
      rcases listens with here | here <;> simp [here] at state
  | _ => exact ⟨possible, trivial⟩

theorem keep (inv : s'.Inv) (log : s'.log = s.log) (more : s'.fq.more = s.fq.more)
    (whole : ∀ i, (s'.pair i).Whole .first)
    (listens : ∀ i, s.fq.more = true → s.fq.turn i → ((s'.pair i).pipe .first).Listens) :
    s'.Fluent where
  inv := inv
  whole := whole
  half := by rw [more, log]; exact fluent.half
  listens midway i turn := by
    -- the same frame is the last one, so it is the same pipe's turn
    rw [more] at midway
    obtain ⟨x, last, announces⟩ := fluent.half midway
    obtain rfl : x.1 = i := Rota.turn_unique (inv.last x (by rw [log, last]) announces).2 turn
    exact listens x.1 midway (fluent.inv.last x last announces).2

theorem pipe (inv : s'.Inv) (log : s'.log = s.log) (more : s'.fq.more = s.fq.more)
    (same : s'.pair = update s.pair i t) (whole : t.Whole .first)
    (listens : s.fq.more = true → s.fq.turn i → (t.pipe .first).Listens) : s'.Fluent := by
  refine fluent.keep inv log more ?_ fun j midway turn => ?_
  · rw [same]
    exact Fq.whole_update fluent.whole whole
  · rw [same]
    by_cases here : j = i
    · subst here
      simpa using listens midway turn
    · simpa [update_of_ne here] using fluent.listens midway j turn

theorem recvpipe {got : Option (ι × Msg)}
    (inv : Inv { fq := fq, pair := pair, log := s.log ++ got.toList })
    (fetches : Fq.Fetches s.fq s.pair got fq pair) :
    Fluent { fq := fq, pair := pair, log := s.log ++ got.toList } := by
  have whole := fetches.whole fluent.whole
  have inside : s.fq.more = true → 0 < s.fq.active := by
    intro midway
    obtain ⟨q, turn⟩ := fluent.inv.inside midway
    exact Nat.zero_lt_of_lt turn.1
  cases fetches.fetched fluent.inv.serves inside with
  | none idle more serves => exact ⟨inv, whole, by simp [more], by simp [more]⟩
  | @some fq₁ pair₁ p msg t was turn serves reading =>
    refine ⟨inv, whole, fun midway => ?_, fun midway i there => ?_⟩
    · exact ⟨(p, msg), by simp, by simpa using midway⟩
    · obtain rfl : i = p :=
        Rota.turn_unique there (Fq.turn_fetched turn (by simpa using midway))
      cases reading with
      | accepted readable =>
        simpa [Pipe.Listens] using (Pipe.readable_iff.mp readable).2

theorem hasIn {b : Bool} (inv : Inv { s with fq := fq, pair := pair })
    (done : s.fq.hasIn s.pair = .ok (b, fq, pair)) : Fluent { s with fq := fq, pair := pair } := by
  obtain ⟨rfl, rfl⟩ | ⟨idle, looks⟩ := Fq.hasIn_looks fluent.runs done
  · exact fluent
  · refine fluent.keep inv rfl looks.keeps_more (looks.whole fluent.runs fluent.whole) ?_
    simp [idle]

theorem step (careful : s.Careful a) (taken : s.step a = .ok s') : s'.Fluent := by
  have inv := fluent.inv.step (fluent.steady careful) taken
  obtain ⟨possible, fed, undisturbed⟩ := careful
  cases a with
  | attach i =>
    obtain ⟨fq, done, rfl⟩ := bind_return.mp taken
    obtain ⟨there, pipes, swapped, rfl⟩ := Fq.attach_eq done
    exact fluent.keep inv rfl rfl fluent.whole fun i midway => fluent.listens midway i
  | recvpipe =>
    obtain ⟨⟨got, fq, pair⟩, done, ⟨⟩⟩ := bind_ok.mp taken
    exact fluent.recvpipe inv (Fq.fetch_fetches rfl fluent.runs done)
  | hasIn =>
    obtain ⟨⟨b, fq, pair⟩, done, ⟨⟩⟩ := bind_ok.mp taken
    exact fluent.hasIn inv done
  | call i a =>
    obtain ⟨t, done, rfl⟩ := bind_return.mp taken
    obtain ⟨member, fair, noRead, noCheck, noHiccup, call⟩ := possible
    have outcome := (fluent.inv.serves.holds i).sound.outcome fair.1 fair.silent done
    refine fluent.pipe inv rfl rfl rfl ((fluent.whole i).reader outcome noHiccup)
      fun midway turn => ?_
    exact outcome.listens_on noRead noCheck (undisturbed midway turn)
      (fluent.listens midway i turn)
  | deliver i =>
    obtain ⟨⟨t, event⟩, done, taken⟩ := bind_ok.mp taken
    obtain ⟨fq, reacts, rfl⟩ := bind_return.mp taken
    have taken : (s.pair i).step (.first, .deliver) = .ok t := by
      simp [Pair.step, done, Except.map]
    have outcome := (fluent.inv.serves.holds i).sound.outcome (e := .first) (a := .deliver)
      possible.2 (by rintro ⟨⟩) taken
    refine fluent.pipe inv rfl (react_more reacts) rfl ((fluent.whole i).reader outcome (by simp))
      fun midway turn => ?_
    exact outcome.listens_on (by simp) (by simp) ((undisturbed midway).1 turn)
      (fluent.listens midway i turn)
  | peer i a =>
    obtain ⟨t, done, rfl⟩ := bind_return.mp taken
    have outcome := (fluent.inv.serves.holds i).sound.outcome possible.1 possible.silent done
    have untouched : t.pipe .first = (s.pair i).pipe .first := outcome.pipe_peer
    refine fluent.pipe inv rfl rfl rfl ((fluent.whole i).writer outcome fed)
      fun midway turn => ?_
    rw [untouched]
    exact fluent.listens midway i turn

end

end Fluent

/-- In every run in which a half-read message is not disturbed, the rest of it can be read. -/
theorem careful_reader_is_safe (hwms : ι → End → Int) {s : FairQueue ι}
    (reached : Reaches step Careful (start hwms) s) : s.Safe :=
  (reached.invariant (P := Fluent) (.start hwms)
    fun _ _ _ fluent careful taken => fluent.step careful taken).safe

theorem careful_reader_is_safe_after_peer :
    ∃ s : FairQueue (Fin 1), Reaches step Careful (start fun _ _ => 5) s ∧ s.fq.more = true ∧
      ((s.pair 0).pipe .first).state = .waitingForDelimiter ∧ s.Safe :=
  exists_run_and₂
    [.peer 0 (.write { flags := MsgFlag.more, data := [1] } true),
      .peer 0 (.write { data := [2] } true), .peer 0 .flush, .attach 0, .recvpipe,
      .peer 0 (.terminate false true), .deliver 0, .hasIn]
    (by decide +kernel) fun _ reached _ _ => careful_reader_is_safe _ reached

private def halfRead (pipe : Fin 2) : List (Action (Fin 2)) :=
  [.peer pipe (.write { flags := MsgFlag.more, data := [1] } true),
    .peer pipe (.write { data := [2] } true), .peer pipe .flush, .attach pipe, .recvpipe]

def misleads (s : FairQueue ι) : Bool :=
  match s.fq.hasIn s.pair with
  | .ok (true, fq, pair) =>
    match fq.recvpipe pair with
    | .ok (none, _, _) => true
    | _ => false
  | _ => false

theorem misleads_spec (misleads : s.misleads = true) :
    ∃ fq pair fq' pair', s.fq.hasIn s.pair = .ok (true, fq, pair) ∧
      fq.recvpipe pair = .ok (none, fq', pair') := by
  unfold FairQueue.misleads at misleads
  split at misleads
  · rename_i fq pair looked
    split at misleads
    · rename_i fq' pair' nothing
      exact ⟨fq, pair, fq', pair', looked, nothing⟩
    · cases misleads
  · cases misleads

/-- If the socket disconnects the pipe of a half-read message, the next `recvpipe` fails its
    assertion. Once the pipe is gone, `has_in` reports a frame and there is none. A
    credential that was handed over alone makes it do the same. -/
theorem disconnect_aborts_reader :
    (∃ s : FairQueue (Fin 2), Reaches step Possible (start fun _ _ => 5) s ∧
      s.fq.recvpipe s.pair = .error (.assertion .recvpipe)) ∧
    (∃ s : FairQueue (Fin 2), Reaches step Possible (start fun _ _ => 5) s ∧
      s.fq.pipes.items = [] ∧ ∃ fq pair fq' pair', s.fq.hasIn s.pair = .ok (true, fq, pair) ∧
        fq.recvpipe pair = .ok (none, fq', pair')) ∧
    ∃ s : FairQueue (Fin 2), Reaches step Possible (start fun _ _ => 5) s ∧
      ∃ fq pair fq' pair', s.fq.hasIn s.pair = .ok (true, fq, pair) ∧
        fq.recvpipe pair = .ok (none, fq', pair') := by
  refine ⟨?_, ?_, ?_⟩
  · exact exists_reaches _ _ _ (halfRead 0 ++ [.call 0 (.terminate false true)]) _ (by decide +kernel)
  · obtain ⟨s, reached, none_left, misleads⟩ :=
      exists_reaches step Possible (start fun (_ : Fin 2) _ => 5)
      (halfRead 0 ++ [.call 0 (.terminate false true), .peer 0 .deliver, .peer 0 .deliver,
        .peer 0 .read, .deliver 0])
      (fun s => s.fq.pipes.items = [] ∧ s.misleads = true) (by decide +kernel)
    exact ⟨s, reached, none_left, misleads_spec misleads⟩
  · obtain ⟨s, reached, misleads⟩ := exists_reaches step Possible (start fun (_ : Fin 2) _ => 5)
      [.peer 0 (.write { flags := MsgFlag.credential, data := [1] } true), .peer 0 .flush, .attach 0]
      (·.misleads = true) (by decide +kernel)
    exact ⟨s, reached, misleads_spec misleads⟩

end FairQueue

end Zmq
