import Zmq.Engine.Basic
import Zmq.Wire.Decoder

/-! # The input of an engine

`in_event_internal` and `restart_input` of `stream_engine_base_t` over the bytes of a connection,
once the handshake is done. What `_process_msg` does is given by a handler. The engine tells a
failure from back-pressure by `errno`, which is a part of the state for that reason. Flushing the
session and setting up the poller are not here.
-/

namespace Zmq.Wire

open Lib

/-- A call of `_process_msg`: whether it returns 0, what is left in place of the message, and
    `errno`. -/
abbrev Handler (τ : Type) := τ → Errno → Msg → Except Fault (Bool × Msg × Errno × τ)

/-- The part of `stream_engine_base_t` that takes input. The last five fields are for the record:
    the bytes that came, the frames that came out of the decoder, how many calls of `_process_msg`
    returned 0, whether the last one did not, and whether the decoder has failed with `errno` at
    `EAGAIN`, which it never sets itself. -/
structure Receiver (κ σ τ : Type) where
  decoder : Decoder κ σ
  inpos : Place
  input : List UInt8
  inputStopped : Bool
  ioError : Bool
  errno : Errno
  failed : Option ErrorReason
  world : τ
  stream : List UInt8
  handed : List Frame
  accepted : Nat
  refused : Bool
  misled : Bool
  deriving DecidableEq

inductive Arrival where
  | again
  | lost (errno : Errno)
  | data (first : UInt8) (more : List UInt8)
  deriving Repr, DecidableEq

/-- What a call of `_process_msg` means to the engine. -/
inductive Outcome where
  | taken
  /-- It is to be called again with what was left. -/
  | again (m : Msg)
  | broken

def Outcome.of (done : Bool) (m : Msg) (errno : Errno) : Outcome :=
  if done then .taken else if errno = .eagain then .again m else .broken

namespace Receiver

variable {κ σ τ : Type} (act : Action κ σ) (handle : Handler τ)

/-- A decoder at its start, with what the handshake has read too much. -/
def new (decoder : Decoder κ σ) (input : List UInt8) (errno : Errno) (world : τ) :
    Receiver κ σ τ where
  decoder := decoder
  inpos := .greeting 0
  input := input
  inputStopped := false
  ioError := false
  errno := errno
  failed := none
  world := world
  stream := input
  handed := []
  accepted := 0
  refused := false
  misled := false

def answered (done : Bool) (m : Msg) (errno : Errno) (world : τ) (s : Receiver κ σ τ) :
    Receiver κ σ τ :=
  { s with
    decoder := { s.decoder with inProgress := m }
    errno := errno
    world := world
    accepted := if done then s.accepted + 1 else s.accepted
    refused := !done }

/-- `(this->*_process_msg) (_decoder->msg ())`. -/
def processMsg (s : Receiver κ σ τ) : Except Fault (Bool × Receiver κ σ τ) := do
  let (done, m, errno, world) ← handle s.world s.errno s.decoder.inProgress
  .ok (done, s.answered done m errno world)

def used (left : List UInt8) (d : Decoder κ σ) (s : Receiver κ σ τ) : Receiver κ σ τ :=
  { s with
    decoder := d
    inpos := s.inpos.advance (s.input.length - left.length)
    input := left }

def rejected (errno : Option Errno) (s : Receiver κ σ τ) : Receiver κ σ τ :=
  { s with
    errno := errno.getD s.errno
    misled := s.misled || errno.getD s.errno == .eagain }

def found (s : Receiver κ σ τ) : Receiver κ σ τ :=
  { s with handed := s.handed ++ [frameOf s.decoder.inProgress] }

/-- The loop over the input; `rc` is 0 or -1. Every round uses up a byte at least. -/
def decodeLoop : Nat → Receiver κ σ τ → Except Fault (Bool × Receiver κ σ τ)
  | 0, s => .ok (true, s)
  | n + 1, s =>
    if s.input = [] then .ok (true, s)
    else do
      let (verdict, left, d) ← Decoder.decode act s.inpos s.input s.decoder
      match verdict with
      | .zero => .ok (true, s.used left d)
      | .minusOne errno => .ok (false, (s.used left d).rejected errno)
      | .one => do
          let (done, s) ← processMsg handle (s.used left d).found
          if done then decodeLoop n s else .ok (false, s)

def decodeInput (s : Receiver κ σ τ) : Except Fault (Receiver κ σ τ) := do
  let (done, s) ← decodeLoop act handle s.input.length s
  if done then .ok s
  else if s.errno ≠ .eagain then .ok { s with failed := some .protocolError }
  else .ok { s with inputStopped := true }

def receive (arrival : Arrival) (s : Receiver κ σ τ) : Except Fault (Receiver κ σ τ) :=
  let ((place, size), d) := s.decoder.getBuffer
  match arrival with
  | .again => .ok { s with decoder := d, inpos := place, errno := .eagain }
  | .lost errno => .ok { s with
      decoder := d, inpos := place, errno := errno, failed := some .connectionError }
  | .data first more => do
      let chunk := (first :: more).take size
      let d ← d.fill place chunk
      decodeInput act handle { s with
        decoder := d, inpos := place, input := chunk, stream := s.stream ++ chunk }

def inEventInternal (arrival : Arrival) (s : Receiver κ σ τ) : Except Fault (Receiver κ σ τ) :=
  if s.ioError then .error (.assertion .inEventInternal)
  else if s.inputStopped then .ok { s with ioError := true }
  else if s.input = [] then receive act handle arrival s
  else decodeInput act handle s

def resumeInput (arrival : Arrival) (done : Bool) (s : Receiver κ σ τ) :
    Except Fault (Receiver κ σ τ) :=
  if !done && s.errno == .eagain then .ok s
  else if s.ioError then .ok { s with failed := some .connectionError }
  else if !done then .ok { s with failed := some .protocolError }
  else inEventInternal act handle arrival { s with inputStopped := false }

def restartInput (arrival : Arrival) (s : Receiver κ σ τ) : Except Fault (Receiver κ σ τ) :=
  if s.inputStopped then do
    let (done, s) ← processMsg handle s
    if done then do
      let (done, s) ← decodeLoop act handle s.input.length s
      resumeInput act handle arrival done s
    else if s.errno = .eagain then .ok s
    else .ok { s with failed := some .protocolError }
  else .error (.assertion .restartInput)

end Receiver

/-- What happens to the input of an engine; `elsewhere` is what others do meanwhile. -/
inductive ReceiverAction (τ : Type) where
  | inEvent (arrival : Arrival)
  | restartInput (arrival : Arrival)
  | elsewhere (errno : Errno) (world : τ)

namespace Receiver

variable {κ σ τ : Type} (act : Action κ σ) (handle : Handler τ) {world : τ} {d : Decoder κ σ}
  {m : Msg} {n : Nat}

def step (s : Receiver κ σ τ) : ReceiverAction τ → Except Fault (Receiver κ σ τ)
  | .inEvent arrival => inEventInternal act handle arrival s
  | .restartInput arrival => restartInput act handle arrival s
  | .elsewhere errno world => .ok { s with errno := errno, world := world }

/-- The engine is there, the poller has its descriptor, and `restart_input` is called for input
    that is stopped. The session and the others do what `env` says. -/
def Allowed (env : τ → τ → Prop) (s : Receiver κ σ τ) : ReceiverAction τ → Prop
  | .inEvent _ => s.failed = none ∧ s.ioError = false
  | .restartInput _ => s.failed = none ∧ s.inputStopped = true
  | .elsewhere _ world => s.failed = none ∧ env s.world world

/-! ## The input and the parser -/

variable {act handle} {γ : Type} {S : Spec κ σ γ} {g₀ g : γ} {held : List UInt8}
  {K : List Frame → Outcome → τ → Prop} {s s' : Receiver κ σ τ} {done : Bool}

/-- The handler keeps a relation between the frames it was given, what it made of the last one and
    its state. -/
structure Handles (handle : Handler τ) (K : List Frame → Outcome → τ → Prop) : Prop where
  fresh : ∀ {frames : List Frame} {w : τ} {m : Msg}, K frames .taken w → Bare m → ∀ e : Errno,
    ∃ done m' e' w', handle w e m = .ok (done, m', e', w') ∧
      K (frames ++ [frameOf m]) (.of done m' e') w'
  retry : ∀ {frames : List Frame} {w : τ} {m : Msg}, K frames (.again m) w → ∀ e : Errno,
    ∃ done m' e' w', handle w e m = .ok (done, m', e', w') ∧ K frames (.of done m' e') w'

structure Follows (S : Spec κ σ γ) (g₀ : γ) (s : Receiver κ σ τ) (g : γ) (held : List UInt8) :
    Prop where
  leads : S.pull.Leads g₀ s.stream s.handed g (held ++ s.input)
  stands : Decoder.At S s.decoder g s.inpos s.input held
  parked : s.decoder.Parked
  input : s.input = [] ∨ Decoder.Input S s.decoder s.inpos s.input

structure Taken (K : List Frame → Outcome → τ → Prop) (s : Receiver κ σ τ) : Prop where
  refused : s.refused = false
  accepted : s.accepted = s.handed.length
  world : K s.handed .taken s.world

section

variable (S g₀ K)

structure Ready (s : Receiver κ σ τ) : Prop extends Taken K s where
  follows : ∃ g held, Follows S g₀ s g held
  misled : s.misled = false

structure Refused (outcome : Outcome) (s : Receiver κ σ τ) : Prop where
  follows : ∃ g, Follows S g₀ s g [] ∧ S.scratch g = true
  refused : s.refused = true
  accepted : s.accepted + 1 = s.handed.length
  world : K s.handed outcome s.world
  misled : s.misled = false

abbrev Stopped (s : Receiver κ σ τ) : Prop :=
  Refused S g₀ K (.again s.decoder.inProgress) s

abbrev Broken (s : Receiver κ σ τ) : Prop :=
  Refused S g₀ K .broken s

structure Rejected (s : Receiver κ σ τ) : Prop extends Taken K s where
  rejects : ∃ e, S.pull.Rejects g₀ s.stream s.handed e ∧ ∀ errno ∈ e, s.errno = errno
  misled : s.misled = true ↔ s.errno = .eagain

structure Kept (s s' : Receiver κ σ τ) : Prop where
  stream : s'.stream = s.stream
  inputStopped : s'.inputStopped = s.inputStopped
  ioError : s'.ioError = s.ioError
  failed : s'.failed = s.failed

inductive Looped : Bool → Receiver κ σ τ → Prop where
  | drained {s : Receiver κ σ τ} : Ready S g₀ K s → s.input = [] → Looped true s
  | stopped {s : Receiver κ σ τ} : Stopped S g₀ K s → s.errno = .eagain → Looped false s
  | broken {s : Receiver κ σ τ} : Broken S g₀ K s → s.errno ≠ .eagain → Looped false s
  | rejected {s : Receiver κ σ τ} : Rejected S g₀ K s → Looped false s

end

section

variable (implements : Decoder.Implements act S)
include implements

theorem Follows.replaced (follows : Follows S g₀ s g held) (kind : S.scratch g = true)
    (decoder : s'.decoder = { s.decoder with inProgress := m }) (stream : s'.stream = s.stream)
    (handed : s'.handed = s.handed) (inpos : s'.inpos = s.inpos) (input : s'.input = s.input) :
    Follows S g₀ s' g held where
  leads := by rw [stream, handed, input]; exact follows.leads
  stands := by rw [decoder, inpos, input]; exact follows.stands.replaced implements kind m
  parked := by rw [decoder]; exact ⟨follows.parked.waits, follows.parked.elsewhere⟩
  input := by
    rw [decoder, inpos, input]
    exact follows.input.imp_right (·.same ⟨rfl, rfl⟩)

/-- How a call of `_process_msg` leaves an engine whose decoder stands between two messages. -/
inductive Processed (S : Spec κ σ γ) (g₀ g : γ) (K : List Frame → Outcome → τ → Prop) :
    Bool → Receiver κ σ τ → Prop where
  | taken {s : Receiver κ σ τ} : Follows S g₀ s g [] → Taken K s → s.misled = false →
      Processed S g₀ g K true s
  | stopped {s : Receiver κ σ τ} : Stopped S g₀ K s → s.errno = .eagain →
      Processed S g₀ g K false s
  | broken {s : Receiver κ σ τ} : Broken S g₀ K s → s.errno ≠ .eagain →
      Processed S g₀ g K false s

theorem processed {errno : Errno}
    (handled : handle s.world s.errno s.decoder.inProgress = .ok (done, m, errno, world))
    (follows : Follows S g₀ s g []) (kind : S.scratch g = true)
    (accepted : s.accepted + 1 = s.handed.length) (keeps : K s.handed (.of done m errno) world)
    (misled : s.misled = false) :
    ∃ s', processMsg handle s = .ok (done, s') ∧ Processed S g₀ g K done s' ∧ Kept s s' ∧
      s'.input = s.input := by
  refine ⟨s.answered done m errno world, by simp only [processMsg, handled, ok_bind], ?_,
    ⟨rfl, rfl, rfl, rfl⟩, rfl⟩
  have follows' : Follows S g₀ (s.answered done m errno world) g [] :=
    follows.replaced implements kind rfl rfl rfl rfl rfl
  cases done with
  | true => exact .taken follows' ⟨rfl, accepted, keeps⟩ misled
  | false =>
    by_cases again : errno = .eagain
    · refine .stopped ⟨⟨g, follows', kind⟩, rfl, accepted, ?_, misled⟩ again
      simpa [Outcome.of, answered, again] using keeps
    · refine .broken ⟨⟨g, follows', kind⟩, rfl, accepted, ?_, misled⟩ again
      simpa [Outcome.of, answered, again] using keeps

theorem looped (handles : Handles handle K) {all left : List UInt8} {verdict : Verdict}
    (some : s.input ≠ [])
    (ran : Decoder.decode act s.inpos s.input s.decoder = .ok (verdict, left, d))
    (decoded : Decoder.Decoded S g all s.inpos s.input.length verdict left d)
    (leads : S.pull.Leads g₀ s.stream s.handed g all) (taken : Taken K s)
    (misled : s.misled = false) (enough : s.input.length ≤ n) :
    ∃ done s', decodeLoop act handle n s = .ok (done, s') ∧ Looped S g₀ K done s' ∧ Kept s s' := by
  induction n generalizing s g all left verdict d with
  | zero => exact absurd (List.eq_nil_of_length_eq_zero (by omega)) some
  | succ n ih =>
    cases decoded with
    | @waits g' held _ place onward stands positive =>
      refine ⟨true, s.used [] d, by simp only [decodeLoop, some, if_false, ran, ok_bind],
        .drained ⟨{ taken with }, ⟨g', held, ?_⟩, misled⟩ rfl,
        ⟨rfl, rfl, rfl, rfl⟩⟩
      have parked := stands.parked positive
      refine ⟨?_, stands.refilled parked.elsewhere _ _ _ _, parked, .inl rfl⟩
      have leads := leads.trans onward
      simpa [used] using leads
    | @rejected e _ _ rejects =>
      refine ⟨false, (s.used left d).rejected e,
        by simp only [decodeLoop, some, if_false, ran, ok_bind],
        .rejected ⟨{ taken with }, ⟨e, ?_, ?_⟩, ?_⟩,
        ⟨rfl, rfl, rfl, rfl⟩⟩
      · have rejects := leads.rejects rejects
        rwa [List.append_nil] at rejects
      · rintro errno ⟨⟩
        rfl
      · simp [rejected, used, misled]
    | @message g' _ _ onward stands between bare input fewer =>
      obtain ⟨done, m, errno, world, handled, keeps⟩ := handles.fresh taken.world bare s.errno
      have follows : Follows S g₀ (s.used left d).found g' [] :=
        ⟨leads.trans onward, stands, between.toParked, input⟩
      obtain ⟨s₁, processed, outcome, kept, same⟩ :=
        processed implements handled follows between.kind
          (by simp [found, used, taken.accepted]) keeps misled
      have loop : decodeLoop act handle (n + 1) s =
          if done then decodeLoop act handle n s₁ else .ok (false, s₁) := by
        simp only [decodeLoop, some, if_false, ran, ok_bind, processed]
      have kept₁ : Kept s s₁ := { kept with }
      cases outcome with
      | stopped ended errno => exact ⟨false, s₁, by rw [loop]; rfl, .stopped ended errno, kept₁⟩
      | broken ended errno => exact ⟨false, s₁, by rw [loop]; rfl, .broken ended errno, kept₁⟩
      | taken follows₁ taken₁ misled₁ =>
        by_cases none : s₁.input = []
        · refine ⟨true, s₁, ?_, .drained ⟨taken₁, ⟨g', [], follows₁⟩, misled₁⟩ none, kept₁⟩
          rw [loop]
          cases n <;> simp [decodeLoop, none]
        · obtain ⟨verdict', left', d', ran', decoded'⟩ := implements.decode_input
            follows₁.stands (follows₁.input.resolve_left none) follows₁.parked
          obtain ⟨done, s', ran'', looped, kept'⟩ := ih none ran' decoded' follows₁.leads
            taken₁ misled₁ (by rw [same]; simp only [found, used]; omega)
          exact ⟨done, s', loop.trans ran'', looped,
            ⟨kept'.stream.trans kept₁.stream, kept'.inputStopped.trans kept₁.inputStopped,
              kept'.ioError.trans kept₁.ioError, kept'.failed.trans kept₁.failed⟩⟩

theorem looped_of_follows (handles : Handles handle K) (follows : Follows S g₀ s g held)
    (taken : Taken K s) (misled : s.misled = false) :
    ∃ done s', decodeLoop act handle s.input.length s = .ok (done, s') ∧ Looped S g₀ K done s' ∧
      Kept s s' := by
  by_cases none : s.input = []
  · exact ⟨true, s, by simp [decodeLoop, none], .drained ⟨taken, ⟨g, held, follows⟩, misled⟩ none,
      ⟨rfl, rfl, rfl, rfl⟩⟩
  · obtain ⟨verdict, left, d, ran, decoded⟩ :=
      implements.decode_input follows.stands (follows.input.resolve_left none) follows.parked
    exact looped implements handles none ran decoded follows.leads taken misled (Nat.le_refl _)

end

/-! ## Runs -/

def Outspoken (S : Spec κ σ γ) : Prop :=
  ∀ {g : γ} {bytes : List UInt8} {e : Option Errno}, S.pull.turn g bytes = .reject e →
    ∃ errno, e = some errno ∧ errno ≠ .eagain

theorem Rejected.not_outspoken (ended : Rejected S g₀ K s) (errno : s.errno = .eagain) :
    ¬ Outspoken S := by
  intro outspoken
  obtain ⟨e, ⟨g, part, left, -, -, turn⟩, sets⟩ := ended.rejects
  obtain ⟨errno', rfl, differs⟩ := outspoken turn
  exact differs ((sets errno' rfl).symm.trans errno)

variable (S g₀ K) in
/-- Where an engine is between two events: it takes input, or waits for the session to take a
    frame, or has called `error`. It may not have called it if it was misled. -/
inductive Phase (s : Receiver κ σ τ) : Prop where
  | ready : Ready S g₀ K s → s.input = [] → s.failed = none → s.inputStopped = false →
      s.ioError = false → Phase s
  | stopped : Stopped S g₀ K s → s.failed = none → s.inputStopped = true → Phase s
  | closed : Broken S g₀ K s ∨ Rejected S g₀ K s → s.failed = some .protocolError →
      s.misled = false → Phase s
  | lost : Ready S g₀ K s ∧ s.input = [] ∨
      s.ioError = true ∧ (Broken S g₀ K s ∨ Rejected S g₀ K s) →
      s.failed = some .connectionError → s.misled = false → Phase s
  | misled : s.misled = true → ¬ Outspoken S → Phase s

section Marks

variable (stopped io : Bool) (failed : Option ErrorReason)

/-- The flags say where an engine is; they are not a part of what it does with its input. -/
def marked (s : Receiver κ σ τ) : Receiver κ σ τ :=
  { s with inputStopped := stopped, ioError := io, failed := failed }

theorem Follows.marked (follows : Follows S g₀ s g held) :
    Follows S g₀ (s.marked stopped io failed) g held :=
  { follows with }

theorem Taken.marked (taken : Taken K s) : Taken K (s.marked stopped io failed) :=
  { taken with }

theorem Ready.marked (ready : Ready S g₀ K s) : Ready S g₀ K (s.marked stopped io failed) := by
  obtain ⟨g, held, follows⟩ := ready.follows
  exact ⟨ready.toTaken.marked .., ⟨g, held, follows.marked ..⟩, ready.misled⟩

theorem Refused.marked {outcome : Outcome} (ended : Refused S g₀ K outcome s) :
    Refused S g₀ K outcome (s.marked stopped io failed) := by
  obtain ⟨g, follows, kind⟩ := ended.follows
  exact { ended with follows := ⟨g, follows.marked .., kind⟩ }

theorem Rejected.marked (ended : Rejected S g₀ K s) :
    Rejected S g₀ K (s.marked stopped io failed) :=
  ⟨ended.toTaken.marked .., ended.rejects, ended.misled⟩

end Marks

theorem Rejected.not_misled (ended : Rejected S g₀ K s) (errno : s.errno ≠ .eagain) :
    s.misled = false := by
  rw [← Bool.not_eq_true, ended.misled]
  exact errno

theorem Looped.decodeInput (ended : Looped S g₀ K done s')
    (ran : decodeLoop act handle s.input.length s = .ok (done, s')) (kept : Kept s s')
    (failed : s.failed = none) (stopped : s.inputStopped = false) (io : s.ioError = false) :
    ∃ s', decodeInput act handle s = .ok s' ∧ Phase S g₀ K s' := by
  simp only [Receiver.decodeInput, ran]
  cases ended with
  | drained ready empty =>
    exact ⟨s', rfl, .ready ready empty (kept.failed.trans failed)
      (kept.inputStopped.trans stopped) (kept.ioError.trans io)⟩
  | stopped ended errno =>
    refine ⟨_, if_neg (not_not.mpr errno), ?_⟩
    exact .stopped (ended.marked true s'.ioError s'.failed) (kept.failed.trans failed) rfl
  | broken ended errno =>
    refine ⟨_, if_pos errno, ?_⟩
    exact .closed (.inl (ended.marked s'.inputStopped s'.ioError _)) rfl ended.misled
  | rejected ended =>
    by_cases errno : s'.errno = .eagain
    · refine ⟨_, if_neg (not_not.mpr errno), ?_⟩
      exact .misled (ended.misled.mpr errno) (ended.not_outspoken errno)
    · refine ⟨_, if_pos errno, ?_⟩
      exact .closed (.inr (ended.marked s'.inputStopped s'.ioError _)) rfl
        (ended.not_misled errno)

theorem Follows.getBuffer (follows : Follows S g₀ s g held) (empty : s.input = []) (place : Place)
    (errno : Errno) (failed : Option ErrorReason) :
    Follows S g₀ { s with
      decoder := s.decoder.getBuffer.2, inpos := place, errno := errno, failed := failed } g held :=
  ⟨follows.leads, follows.stands.refilled follows.parked.elsewhere _ _ _ _,
    ⟨follows.parked.waits, follows.parked.elsewhere⟩, .inl empty⟩

theorem resumeInput_of_failing (ended : Broken S g₀ K s ∨ Rejected S g₀ K s)
    (misled : s.misled = false) (errno : s.errno ≠ .eagain) (arrival : Arrival) :
    ∃ s', resumeInput act handle arrival false s = .ok s' ∧ Phase S g₀ K s' := by
  have ended' (failed : Option ErrorReason) :
      Broken S g₀ K (s.marked s.inputStopped s.ioError failed) ∨
        Rejected S g₀ K (s.marked s.inputStopped s.ioError failed) :=
    ended.imp (·.marked _ _ _) (·.marked _ _ _)
  by_cases io : s.ioError = true
  · refine ⟨s.marked s.inputStopped s.ioError (some .connectionError), ?_,
      .lost (.inr ⟨io, ended' _⟩) rfl misled⟩
    rw [Receiver.resumeInput, if_neg (by simpa using errno), if_pos io]
    rfl
  · refine ⟨s.marked s.inputStopped s.ioError (some .protocolError), ?_,
      .closed (ended' _) rfl misled⟩
    rw [Receiver.resumeInput, if_neg (by simpa using errno), if_neg io, if_pos Bool.not_false]
    rfl

section Events

variable (implements : Decoder.Implements act S) (handles : Handles handle K)
include implements handles

theorem Ready.receive (ready : Ready S g₀ K s) (empty : s.input = []) (failed : s.failed = none)
    (stopped : s.inputStopped = false) (io : s.ioError = false) (arrival : Arrival) :
    ∃ s', receive act handle arrival s = .ok s' ∧ Phase S g₀ K s' := by
  obtain ⟨g, held, follows⟩ := ready.follows
  cases arrival with
  | again =>
    exact ⟨_, rfl, .ready ⟨{ ready with },
      ⟨g, held, follows.getBuffer empty ..⟩, ready.misled⟩ empty failed stopped io⟩
  | lost errno =>
    exact ⟨_, rfl, .lost (.inl ⟨⟨{ ready with },
      ⟨g, held, follows.getBuffer empty ..⟩, ready.misled⟩, empty⟩) rfl ready.misled⟩
  | data first more =>
    have positive : 0 < s.decoder.getBuffer.1.2 := by
      have := follows.stands.positive
      have := follows.parked.waits
      simp only [Decoder.getBuffer]
      split <;> assumption
    generalize cut : (first :: more).take s.decoder.getBuffer.1.2 = chunk
    have some : chunk ≠ [] := by
      rw [← cut]
      simp only [ne_eq, List.take_eq_nil_iff, reduceCtorEq, or_false]
      omega
    have stands := follows.stands
    rw [empty] at stands
    obtain ⟨d₁, verdict, left, d₂, filled, ran, decoded⟩ :=
      implements.read chunk stands follows.parked.waits some
        (by rw [← cut, List.length_take]; omega)
    have leads := follows.leads.append chunk
    rw [empty, List.append_nil] at leads
    obtain ⟨done, s', loop, ended, kept⟩ := looped implements handles
      (s := { s with
        decoder := d₁
        inpos := s.decoder.getBuffer.1.1
        input := chunk
        stream := s.stream ++ chunk })
      some ran decoded leads { ready with } ready.misled
      (Nat.le_refl _)
    obtain ⟨s'', ran', phase⟩ := ended.decodeInput loop kept failed stopped io
    refine ⟨s'', ?_, phase⟩
    simp only [Receiver.receive, cut, filled]
    exact ran'

theorem Ready.inEventInternal (ready : Ready S g₀ K s) (failed : s.failed = none)
    (stopped : s.inputStopped = false) (io : s.ioError = false) (arrival : Arrival) :
    ∃ s', inEventInternal act handle arrival s = .ok s' ∧ Phase S g₀ K s' := by
  simp only [Receiver.inEventInternal, stopped, io]
  by_cases empty : s.input = []
  · rw [if_pos empty]
    exact ready.receive implements handles empty failed stopped io arrival
  · rw [if_neg empty]
    obtain ⟨g, held, follows⟩ := ready.follows
    obtain ⟨done, s', ran, ended, kept⟩ :=
      looped_of_follows implements handles follows ready.toTaken ready.misled
    exact ended.decodeInput ran kept failed stopped io

theorem Looped.resumeInput (ended : Looped S g₀ K done s) (failed : s.failed = none)
    (stopped : s.inputStopped = true) (arrival : Arrival) :
    ∃ s', resumeInput act handle arrival done s = .ok s' ∧ Phase S g₀ K s' := by
  cases ended with
  | drained ready empty =>
    by_cases io : s.ioError = true
    · refine ⟨s.marked s.inputStopped s.ioError (some .connectionError), ?_,
        .lost (.inl ⟨ready.marked .., empty⟩) rfl ready.misled⟩
      rw [Receiver.resumeInput, if_neg (by simp), if_pos io]
      rfl
    · rw [Receiver.resumeInput, if_neg (by simp), if_neg io, if_neg (by simp)]
      exact (ready.marked false s.ioError s.failed).inEventInternal implements handles failed rfl
        (Bool.eq_false_iff.mpr io) arrival
  | stopped ended errno =>
    refine ⟨s, ?_, .stopped ended failed stopped⟩
    rw [Receiver.resumeInput, if_pos (by simpa using errno)]
  | broken ended errno => exact resumeInput_of_failing (.inl ended) ended.misled errno arrival
  | rejected ended =>
    by_cases errno : s.errno = .eagain
    · refine ⟨s, ?_, .misled (ended.misled.mpr errno) (ended.not_outspoken errno)⟩
      rw [Receiver.resumeInput, if_pos (by simpa using errno)]
    · exact resumeInput_of_failing (.inr ended) (ended.not_misled errno) errno arrival

theorem Refused.restartInput (ended : Stopped S g₀ K s) (failed : s.failed = none)
    (stopped : s.inputStopped = true) (arrival : Arrival) :
    ∃ s', restartInput act handle arrival s = .ok s' ∧ Phase S g₀ K s' := by
  obtain ⟨g, follows, kind⟩ := ended.follows
  obtain ⟨done, m, errno, world, handled, keeps⟩ := handles.retry ended.world s.errno
  obtain ⟨s₁, ran, outcome, kept, -⟩ :=
    processed implements handled follows kind ended.accepted keeps ended.misled
  rw [Receiver.restartInput, if_pos stopped, ran, ok_bind]
  cases outcome with
  | stopped ended₁ errno =>
    refine ⟨s₁, if_pos errno, ?_⟩
    exact .stopped ended₁ (kept.failed.trans failed) (kept.inputStopped.trans stopped)
  | broken ended₁ errno =>
    refine ⟨_, if_neg errno, ?_⟩
    exact .closed (.inl (ended₁.marked s₁.inputStopped s₁.ioError _)) rfl ended₁.misled
  | taken follows₁ taken₁ misled₁ =>
    obtain ⟨done, s₂, ran₂, ended₂, kept₂⟩ :=
      looped_of_follows implements handles follows₁ taken₁ misled₁
    simp only [ran₂]
    exact ended₂.resumeInput implements handles
      (kept₂.failed.trans (kept.failed.trans failed))
      (kept₂.inputStopped.trans (kept.inputStopped.trans stopped)) arrival

end Events

section Noticed

/-! A failure of the decoder is noticed if `errno` was not `EAGAIN` before the event. -/

/-- Whoever takes a message leaves no `EAGAIN` behind that was not there before. -/
def Clean (handle : Handler τ) : Prop :=
  ∀ {w : τ} {e : Errno} {m : Msg}, e ≠ .eagain →
    Ensures (fun r => r.1 = true → r.2.2.1 ≠ .eagain) (handle w e m)

variable (clean : Clean handle)
  (decoder : ∀ {place : Place} {bytes : List UInt8} {d : Decoder κ σ},
    Ensures (·.1 ≠ .minusOne (some .eagain)) (Decoder.decode act place bytes d))

include clean in
theorem processMsg_noticed (errno : s.errno ≠ .eagain) :
    Ensures (fun r => r.2.misled = s.misled ∧ (r.1 = true → r.2.errno ≠ .eagain))
      (processMsg handle s) :=
  .bind (clean errno) fun _ clear => .ok ⟨rfl, clear⟩

include clean decoder

theorem decodeLoop_noticed (errno : s.errno ≠ .eagain) :
    Ensures (fun r => r.2.misled = s.misled ∧ (r.1 = true → r.2.errno ≠ .eagain))
      (decodeLoop act handle n s) := by
  induction n generalizing s with
  | zero => exact .ok ⟨rfl, fun _ => errno⟩
  | succ n ih =>
    refine .ite (fun _ => .ok ⟨rfl, fun _ => errno⟩) fun _ => .bind decoder fun r sets => ?_
    obtain ⟨verdict, left, d⟩ := r
    cases verdict with
    | zero => exact .ok ⟨rfl, fun _ => errno⟩
    | minusOne e =>
      refine .ok ⟨?_, nofun⟩
      cases e with
      | none => simp [rejected, used, errno]
      | some e =>
        have differs : e ≠ .eagain := by simpa using sets
        simp [rejected, used, differs]
    | one =>
      refine .bind (processMsg_noticed clean (s := (s.used left d).found) errno) fun r noticed => ?_
      obtain ⟨done, s₁⟩ := r
      refine .ite (fun taken => (ih (noticed.2 taken)).mono fun r later => ?_) fun _ => .ok ?_
      · exact ⟨later.1.trans noticed.1, later.2⟩
      · exact ⟨noticed.1, nofun⟩

theorem decodeInput_noticed (errno : s.errno ≠ .eagain) :
    Ensures (·.misled = s.misled) (decodeInput act handle s) :=
  .bind (decodeLoop_noticed clean decoder errno) fun _ noticed => .ite (fun _ => .ok noticed.1)
    fun _ => .ite (fun _ => .ok noticed.1) fun _ => .ok noticed.1

variable {arrival : Arrival}

theorem inEventInternal_noticed (errno : s.errno ≠ .eagain) :
    Ensures (·.misled = s.misled) (inEventInternal act handle arrival s) := by
  refine .ite (fun _ => .error) fun _ => .ite (fun _ => .ok rfl) fun _ => ?_
  refine .ite (fun _ => ?_) fun _ => decodeInput_noticed clean decoder errno
  cases arrival with
  | again | lost => exact .ok rfl
  | data first more =>
    refine .bind .any fun d _ => ?_
    exact decodeInput_noticed (s := { s with
      decoder := d
      inpos := s.decoder.getBuffer.1.1
      input := (first :: more).take s.decoder.getBuffer.1.2
      stream := s.stream ++ (first :: more).take s.decoder.getBuffer.1.2 }) clean decoder errno

theorem restartInput_noticed (errno : s.errno ≠ .eagain) :
    Ensures (·.misled = s.misled) (restartInput act handle arrival s) := by
  refine .ite (fun _ => .bind (processMsg_noticed clean errno) fun r first => ?_) fun _ => .error
  refine .ite (fun taken => ?_) fun _ => .ite (fun _ => .ok first.1) fun _ => .ok first.1
  refine .bind (decodeLoop_noticed clean decoder (first.2 taken)) fun r second => ?_
  have same := second.1.trans first.1
  refine .ite (fun _ => .ok same) fun _ => .ite (fun _ => .ok same) fun _ =>
    .ite (fun _ => .ok same) fun drained => ?_
  have errno₂ := second.2 (by simpa using drained)
  exact (inEventInternal_noticed (s := { r.2 with inputStopped := false }) clean decoder errno₂).mono
    fun _ later => later.trans same

theorem step_noticed {a : ReceiverAction τ}
    (errno : (∀ e w, a ≠ .elsewhere e w) → s.errno ≠ .eagain) :
    Ensures (·.misled = s.misled) (step act handle s a) := by
  cases a with
  | inEvent arrival => exact inEventInternal_noticed clean decoder (errno nofun)
  | restartInput arrival => exact restartInput_noticed clean decoder (errno nofun)
  | elsewhere e w => exact .ok rfl

end Noticed

section Runs

variable {env : τ → τ → Prop} {a : ReceiverAction τ}

theorem Phase.elsewhere (phase : Phase S g₀ K s)
    (kept : ∀ {frames : List Frame} {outcome : Outcome},
      K frames outcome s.world → K frames outcome world)
    (allowed : s.failed = none) (errno : Errno) :
    Phase S g₀ K { s with errno := errno, world := world } := by
  cases phase with
  | ready ready empty failed stopped io =>
    obtain ⟨g, held, follows⟩ := ready.follows
    exact .ready ⟨⟨ready.refused, ready.accepted, kept ready.world⟩,
      ⟨g, held, { follows with }⟩, ready.misled⟩ empty failed stopped io
  | stopped ended failed stopped =>
    obtain ⟨g, follows, kind⟩ := ended.follows
    exact .stopped ⟨⟨g, { follows with }, kind⟩,
      ended.refused, ended.accepted, kept ended.world, ended.misled⟩ failed stopped
  | closed _ failed | lost _ failed => simp [allowed] at failed
  | misled misled silent => exact .misled misled silent

theorem Phase.not_outspoken (phase : Phase S g₀ K s) (misled : s.misled = true) :
    ¬ Outspoken S := by
  cases phase with
  | ready ready | stopped ready => simp [ready.misled] at misled
  | closed _ _ misled' | lost _ _ misled' => simp [misled'] at misled
  | misled _ silent => exact silent

section Steps

variable (implements : Decoder.Implements act S) (handles : Handles handle K)
    (kept : ∀ {frames : List Frame} {outcome : Outcome} {w w' : τ}, env w w' →
      K frames outcome w → K frames outcome w')
include implements handles kept

/-- No event finds an engine that does not know what to do, and each leaves it in a phase. -/
theorem Phase.progress (phase : Phase S g₀ K s) (misled : s.misled = false)
    (allowed : Allowed env s a) : ∃ s', step act handle s a = .ok s' ∧ Phase S g₀ K s' := by
  cases a with
  | inEvent arrival =>
    obtain ⟨failed, io⟩ := allowed
    cases phase with
    | ready ready empty _ stopped _ =>
      exact ready.inEventInternal implements handles failed stopped io arrival
    | stopped ended _ stopped =>
      refine ⟨s.marked s.inputStopped true s.failed, ?_, .stopped (ended.marked ..) failed stopped⟩
      simp only [Receiver.step, inEventInternal, io, stopped, Bool.false_eq_true, if_false,
        if_true]
      simp only [marked]
    | closed _ failed' | lost _ failed' => simp [failed] at failed'
    | misled misled' => simp [misled] at misled'
  | restartInput arrival =>
    obtain ⟨failed, stopped⟩ := allowed
    cases phase with
    | ready _ _ _ going => simp [stopped] at going
    | stopped ended => exact ended.restartInput implements handles failed stopped arrival
    | closed _ failed' | lost _ failed' => simp [failed] at failed'
    | misled misled' => simp [misled] at misled'
  | elsewhere errno world =>
    obtain ⟨failed, changed⟩ := allowed
    exact ⟨_, rfl, phase.elsewhere (kept changed) failed errno⟩

theorem Phase.stepped (phase : Phase S g₀ K s) (misled : s.misled = false)
    (allowed : Allowed env s a) (stepped : step act handle s a = .ok s') : Phase S g₀ K s' := by
  obtain ⟨s'', stepped', phase'⟩ := phase.progress implements handles kept misled allowed
  cases stepped.symm.trans stepped'
  exact phase'

end Steps

theorem ready_new {input : List UInt8} (errno : Errno)
    (stands : Decoder.At S d g₀ (.greeting 0) input []) (parked : d.Parked)
    (mixed : input = [] ∨ S.room = 0) (holds : K [] .taken world) :
    Ready S g₀ K (new d input errno world) where
  refused := rfl
  accepted := rfl
  world := holds
  follows := ⟨g₀, [], .refl g₀ input, stands, parked, mixed.imp_right fun room => .inr ⟨room, 0, rfl⟩⟩
  misled := rfl

theorem Ready.leads (ready : Ready S g₀ K s) (empty : s.input = []) :
    ∃ g left, S.pull.Leads g₀ s.stream s.handed g left ∧ left.length < S.pull.need g := by
  obtain ⟨g, held, follows⟩ := ready.follows
  have leads := follows.leads
  rw [empty, List.append_nil] at leads
  exact ⟨g, held, leads, follows.stands.waiting follows.parked.waits⟩

/-- What was handed out is at the front of the stream, and is all of it that is complete unless
    input is stopped. -/
theorem Phase.leads (phase : Phase S g₀ K s) (misled : s.misled = false) :
    ∃ g left, S.pull.Leads g₀ s.stream s.handed g left ∧
      (s.failed = none → s.inputStopped = false →
        s.accepted = s.handed.length ∧ left.length < S.pull.need g) := by
  have refused {outcome : Outcome} (ended : Refused S g₀ K outcome s) :
      ∃ g left, S.pull.Leads g₀ s.stream s.handed g left := by
    obtain ⟨g, follows, -⟩ := ended.follows
    exact ⟨g, _, follows.leads⟩
  have failing (ended : Broken S g₀ K s ∨ Rejected S g₀ K s) :
      ∃ g left, S.pull.Leads g₀ s.stream s.handed g left := by
    rcases ended with ended | ended
    · exact refused ended
    · obtain ⟨e, ⟨g, part, left, leads, -⟩, -⟩ := ended.rejects
      exact ⟨g, _, leads⟩
  have ready (ready : Ready S g₀ K s) (empty : s.input = []) :
      ∃ g left, S.pull.Leads g₀ s.stream s.handed g left ∧
        (s.failed = none → s.inputStopped = false →
          s.accepted = s.handed.length ∧ left.length < S.pull.need g) := by
    obtain ⟨g, left, leads, waits⟩ := ready.leads empty
    exact ⟨g, left, leads, fun _ _ => ⟨ready.accepted, waits⟩⟩
  cases phase with
  | ready ready' empty => exact ready ready' empty
  | stopped ended _ stopped =>
    obtain ⟨g, left, leads⟩ := refused ended
    exact ⟨g, left, leads, fun _ going => by simp [stopped] at going⟩
  | closed ended failed =>
    obtain ⟨g, left, leads⟩ := failing ended
    exact ⟨g, left, leads, fun none => by simp [failed] at none⟩
  | lost ended failed =>
    rcases ended with ⟨ready', empty⟩ | ⟨-, ended⟩
    · exact ready ready' empty
    · obtain ⟨g, left, leads⟩ := failing ended
      exact ⟨g, left, leads, fun none => by simp [failed] at none⟩
  | misled misled' => simp [misled] at misled'

theorem Phase.of_rejects {outs : List Frame} {e : Option Errno} (phase : Phase S g₀ K s)
    (rejects : S.pull.Rejects g₀ s.stream outs e) (misled : s.misled = false)
    (io : s.ioError = false) :
    s.handed <+: outs ∧ (s.failed = some .protocolError ∨
      s.failed = none ∧ s.inputStopped = true ∧ s.refused = true) := by
  have not_ready (ready : Ready S g₀ K s) : s.input ≠ [] := by
    intro empty
    obtain ⟨g, left, leads, waits⟩ := ready.leads empty
    obtain ⟨more, -, rejects⟩ := leads.of_rejecting rejects
    exact Pull.not_rejects_of_waiting waits rejects
  obtain ⟨g, left, leads, -⟩ := phase.leads misled
  obtain ⟨more, rfl, -⟩ := leads.of_rejecting rejects
  refine ⟨List.prefix_append _ _, ?_⟩
  cases phase with
  | ready ready empty => exact absurd empty (not_ready ready)
  | stopped ended failed waits => exact .inr ⟨failed, waits, ended.refused⟩
  | closed _ failed => exact .inl failed
  | lost lost =>
    rcases lost with ⟨ready, empty⟩ | ⟨io', -⟩
    · exact absurd empty (not_ready ready)
    · simp [io] at io'
  | misled misled' => simp [misled] at misled'

end Runs

instance {env : τ → τ → Prop} [∀ w w', Decidable (env w w')] (s : Receiver κ σ τ)
    (a : ReceiverAction τ) : Decidable (Allowed env s a) := by
  cases a <;> dsimp only [Allowed] <;> infer_instance

end Receiver

end Zmq.Wire
