import Zmq.Lib.Pull
import Zmq.Pipe.Basic

/-! # Decoders

`decoder_base_t` and the buffer of its allocator, for a derived class that is given by its
actions. Pointers are places, so that the two ways a decoder saves a copy can be told from
copying: the caller reads into the message itself, or the message is a part of the buffer.

What a decoder does with its input, however it is cut, is what a pull parser does with the
whole: `Implements` is what a derived class has to show for that.
-/

namespace Zmq.Wire

open Lib

/-- The values of `errno` that matter here. -/
inductive Errno where
  | eagain
  | emsgsize
  | eproto
  | other (code : Nat)
  deriving Repr, DecidableEq

/-- What an action or `decode` returns: 0, 1, or -1 with the `errno` it sets if it sets one. -/
inductive Verdict where
  | zero
  | one
  | minusOne (errno : Option Errno)
  deriving Repr, DecidableEq

/-- Where a pointer points: into `_tmpbuf`, into the storage of the message in progress, into the
    buffer of the allocator, or into the engine's buffer with what a handshake has read too much. -/
inductive Place where
  | tmpbuf (offset : Nat)
  | message (offset : Nat)
  | buffer (offset : Nat)
  | greeting (offset : Nat)
  deriving Repr, DecidableEq

def Place.advance (n : Nat) : Place → Place
  | .tmpbuf offset => .tmpbuf (offset + n)
  | .message offset => .message (offset + n)
  | .buffer offset => .buffer (offset + n)
  | .greeting offset => .greeting (offset + n)

def Place.IsInput : Place → Prop
  | .buffer _ | .greeting _ => True
  | .tmpbuf _ | .message _ => False

theorem Place.advance_isInput (place : Place) (n : Nat) :
    (place.advance n).IsInput ↔ place.IsInput := by
  cases place <;> exact Iff.rfl

theorem Place.IsInput.ne_tmpbuf {place : Place} (input : place.IsInput) (offset : Nat) :
    .tmpbuf offset ≠ place := by
  rintro rfl
  exact input

theorem Place.IsInput.ne_message {place : Place} (input : place.IsInput) (offset : Nat) :
    .message offset ≠ place := by
  rintro rfl
  exact input

/-- `decoder_base_t` with the fields the derived classes have in common; `κ` are the actions of
    the class and `σ` its other fields. -/
structure Decoder (κ σ : Type) where
  next : κ
  readPos : Place
  toRead : Nat
  /-- What is in the buffer of the allocator. -/
  buf : List UInt8
  bufSize : Nat
  maxSize : Nat
  tmpbuf : List UInt8
  inProgress : Msg
  own : σ
  deriving Repr, DecidableEq

/-- The actions of a derived class. They get the place up to which the input is used. -/
abbrev Action (κ σ : Type) := Place → Decoder κ σ → Except Fault (Verdict × Decoder κ σ)

def overwrite (block : List UInt8) (offset : Nat) (bytes : List UInt8) : List UInt8 :=
  block.take offset ++ bytes ++ block.drop (offset + bytes.length)

namespace Decoder

variable {κ σ : Type}

/-- Write bytes to a place. Nothing is copied into the buffer but what is read from the wire. -/
def store (place : Place) (bytes : List UInt8) (d : Decoder κ σ) : Except Fault (Decoder κ σ) :=
  match place with
  | .tmpbuf offset =>
    if offset + bytes.length ≤ d.tmpbuf.length then
      .ok { d with tmpbuf := overwrite d.tmpbuf offset bytes }
    else .error .outOfBounds
  | .message offset =>
    if offset + bytes.length ≤ d.inProgress.data.length then
      .ok { d with inProgress :=
        { d.inProgress with data := overwrite d.inProgress.data offset bytes } }
    else .error .outOfBounds
  | .buffer _ | .greeting _ => .error .outOfBounds

/-- The copy in `decode`, left out where the bytes are in their place already. -/
def copyFrom (place : Place) (bytes : List UInt8) (d : Decoder κ σ) : Except Fault (Decoder κ σ) :=
  if d.readPos = place then .ok d else store d.readPos bytes d

def nextStep (readPos : Place) (toRead : Nat) (next : κ) (d : Decoder κ σ) : Decoder κ σ :=
  { d with readPos := readPos, toRead := toRead, next := next }

/-- The message for a body of that size, with storage of its own or made of the bytes at an offset
    of the buffer; few bytes are copied at once. -/
def beginBody (size : Nat) (flags : UInt8) (shared : Option Nat) (next : κ) (d : Decoder κ σ) :
    Decoder κ σ :=
  match shared with
  | none =>
    { d with inProgress := { Msg.initSize (.replicate size 0) with flags := flags } }.nextStep
      (.message 0) size next
  | some offset =>
    let bytes := (d.buf.drop offset).take size
    if size < 33 then
      { d with inProgress := { Msg.initSize bytes with flags := flags } }.nextStep
        (.message 0) size next
    else
      { d with inProgress := { type := .zclmsg, flags := flags, data := bytes } }.nextStep
        (.buffer offset) size next

def consume (n : Nat) (d : Decoder κ σ) : Decoder κ σ :=
  { d with readPos := d.readPos.advance n, toRead := d.toRead - n }

/-- `decoder_base_t::get_buffer`: the buffer is empty again, and the caller gets it or the place
    in the message that a long message goes on at. -/
def getBuffer (d : Decoder κ σ) : (Place × Nat) × Decoder κ σ :=
  (if d.maxSize ≤ d.toRead then (d.readPos, d.toRead) else (.buffer 0, d.maxSize),
    { d with bufSize := d.maxSize, buf := [] })

/-- `read` into what `get_buffer` gave, and `resize_buffer`. -/
def fill (place : Place) (bytes : List UInt8) (d : Decoder κ σ) : Except Fault (Decoder κ σ) :=
  match place with
  | .buffer _ => .ok { d with buf := bytes, bufSize := bytes.length }
  | place => (store place bytes d).map fun d => { d with bufSize := bytes.length }

variable (act : Action κ σ)

/-- `while (!_to_read)`. Only an empty body lets a second action follow, and that one returns. -/
def settle (place : Place) : Nat → Decoder κ σ → Except Fault (Verdict × Decoder κ σ)
  | 0, d => .ok (.zero, d)
  | n + 1, d =>
    if d.toRead = 0 then do
      let (verdict, d) ← act place d
      if verdict = .zero then settle place n d else .ok (verdict, d)
    else .ok (.zero, d)

/-- The loop of `decode` over the bytes at a place. It returns those it has not used. -/
def copyLoop : Nat → Place → List UInt8 → Decoder κ σ →
    Except Fault (Verdict × List UInt8 × Decoder κ σ)
  | 0, _, rest, d => .ok (.zero, rest, d)
  | n + 1, place, rest, d =>
    if rest = [] then .ok (.zero, rest, d)
    else do
      let part := rest.take d.toRead
      let rest := rest.drop d.toRead
      let d ← d.copyFrom place part
      let place := place.advance part.length
      let (verdict, d) ← settle act place 2 (d.consume part.length)
      if verdict = .zero then copyLoop n place rest d else .ok (verdict, rest, d)

def decode (data : Place) (bytes : List UInt8) (d : Decoder κ σ) :
    Except Fault (Verdict × List UInt8 × Decoder κ σ) :=
  if data = d.readPos then
    if bytes.length ≤ d.toRead then do
      let (verdict, d) ← settle act (data.advance bytes.length) 2 (d.consume bytes.length)
      .ok (verdict, [], d)
    else .error (.assertion .decode)
  else copyLoop act bytes.length data bytes d

/-- What all actions keep to, `decode` keeps to. -/
theorem decode_ensures {act : Action κ σ} {P : Verdict → Prop} (zero : P .zero)
    (holds : ∀ place d, Ensures (P ·.1) (act place d)) (place : Place) (bytes : List UInt8)
    (d : Decoder κ σ) : Ensures (P ·.1) (decode act place bytes d) := by
  have settled (place : Place) (n : Nat) (d : Decoder κ σ) : Ensures (P ·.1) (settle act place n d) := by
    induction n generalizing d with
    | zero => exact .ok zero
    | succ n ih =>
      exact .ite (fun _ => .bind (holds place d) fun r kept => .ite (fun _ => ih r.2) fun _ => .ok kept)
        fun _ => .ok zero
  have copied (n : Nat) (place : Place) (rest : List UInt8) (d : Decoder κ σ) :
      Ensures (P ·.1) (copyLoop act n place rest d) := by
    induction n generalizing place rest d with
    | zero => exact .ok zero
    | succ n ih =>
      refine .ite (fun _ => .ok zero) fun _ => .bind .any fun d' _ => ?_
      exact .bind (settled _ 2 _) fun r kept => .ite (fun _ => ih _ _ r.2) fun _ => .ok kept
  exact .ite (fun _ => .ite (fun _ => .bind (settled _ 2 _) fun _ kept => .ok kept) fun _ => .error)
    fun _ => copied _ _ _ _

/-- The loop of `in_event_internal` for a caller that takes every message. -/
def drain : Nat → Place → List UInt8 → Decoder κ σ →
    Except Fault (List Msg × Verdict × List UInt8 × Decoder κ σ)
  | 0, _, rest, d => .ok ([], .zero, rest, d)
  | n + 1, place, rest, d =>
    if rest = [] then .ok ([], .zero, rest, d)
    else do
      let (verdict, left, d) ← decode act place rest d
      if verdict = .one then do
        let (msgs, verdict, left, d') ← drain n (place.advance (rest.length - left.length)) left d
        .ok (d.inProgress :: msgs, verdict, left, d')
      else .ok ([], verdict, left, d)

/-- What a decoder made of a stream: the messages, what the last `decode` returned, and the bytes
    that were read but not used and those that were not read. -/
structure Intake (κ σ : Type) where
  msgs : List Msg
  verdict : Verdict
  left : List UInt8
  unread : List UInt8
  decoder : Decoder κ σ

/-- Feed a stream through `get_buffer`, `resize_buffer` and `decode`. The `n`s cut it: a read gives
    at most `n + 1` bytes. -/
def receive : List Nat → List UInt8 → Decoder κ σ → Except Fault (Intake κ σ)
  | [], stream, d => .ok ⟨[], .zero, [], stream, d⟩
  | n :: reads, stream, d =>
    if stream = [] then .ok ⟨[], .zero, [], [], d.getBuffer.2⟩
    else do
      let ((place, size), d) := d.getBuffer
      let chunk := stream.take (min (n + 1) size)
      let unread := stream.drop (min (n + 1) size)
      let d ← d.fill place chunk
      let (msgs, verdict, left, d) ← drain act chunk.length place chunk d
      if verdict = .zero ∧ left = [] then do
        let later ← receive reads unread d
        .ok { later with msgs := msgs ++ later.msgs }
      else .ok ⟨msgs, verdict, left, unread, d⟩

end Decoder

/-! ## Decoders and pull parsers -/

/-- What a decoder hands out. -/
structure Frame where
  flags : UInt8
  data : List UInt8
  deriving Repr, DecidableEq

def frameOf (m : Msg) : Frame := ⟨m.flags, m.data⟩

structure Bare (m : Msg) : Prop where
  group : m.group = []
  metadata : m.metadata = none

/-- The pull parser a derived class stands for, and how its states show in a decoder. -/
structure Spec (κ σ γ : Type) where
  pull : Pull UInt8 γ Frame (Option Errno)
  /-- Whether the bytes that a state waits for go to `_tmpbuf`; they go to the message if not. -/
  scratch : γ → Bool
  /-- The size of the buffer from which on the class never gets parts of a header from elsewhere;
      0 if it does not mind. -/
  room : Nat
  /-- The next action, the fields of the class and the flags of the message in a state. -/
  Abs : κ → σ → UInt8 → γ → Prop

namespace Decoder

variable {κ σ γ : Type} {S : Spec κ σ γ} {act : Action κ σ} {d d' : Decoder κ σ} {g g' : γ}
  {place : Place} {rest s stream all s' : List UInt8} {r : Intake κ σ} {msgs : List Msg}
  {offset : Nat}

/-- The decoder holds `s` of what it waits for; `rest` is the input at `place`. -/
inductive Held (scratch : Bool) (d : Decoder κ σ) (place : Place) (rest s : List UInt8) : Prop where
  | tmpbuf : scratch = true → d.readPos = .tmpbuf s.length → d.tmpbuf.take s.length = s →
      s.length + d.toRead ≤ d.tmpbuf.length → Held scratch d place rest s
  | message : scratch = false → d.readPos = .message s.length →
      d.inProgress.data.take s.length = s → s.length + d.toRead = d.inProgress.data.length →
      Bare d.inProgress → Held scratch d place rest s
  /-- The message is a part of the buffer and the rest of it is there. -/
  | shared (offset : Nat) : scratch = false → place = .buffer offset → d.readPos = place →
      d.inProgress.data = s ++ rest.take d.toRead → d.toRead ≤ rest.length →
      Bare d.inProgress → Held scratch d place rest s

/-- The decoder stands in state `g` and holds `s`. -/
structure At (S : Spec κ σ γ) (d : Decoder κ σ) (g : γ) (place : Place) (rest s : List UInt8) :
    Prop where
  abs : S.Abs d.next d.own d.inProgress.flags g
  held : Held (S.scratch g) d place rest s
  need : s.length + d.toRead = S.pull.need g
  room : S.room ≤ d.maxSize
  positive : 0 < d.maxSize
  scratch : d.tmpbuf.length = 8

def Window (d : Decoder κ σ) (place : Place) (rest : List UInt8) : Prop :=
  ∃ offset, place = .buffer offset ∧ offset ≤ d.buf.length ∧ d.bufSize = d.buf.length ∧
    rest = d.buf.drop offset

def SameBuffer (d d' : Decoder κ σ) : Prop := d'.buf = d.buf ∧ d'.bufSize = d.bufSize

def Input (S : Spec κ σ γ) (d : Decoder κ σ) (place : Place) (rest : List UInt8) : Prop :=
  Window d place rest ∨ S.room = 0 ∧ ∃ offset, place = .greeting offset

/-- Where an action can be told to be: in the buffer, or behind something that is long enough to
    be read into its place. -/
def Sited (S : Spec κ σ γ) (d : Decoder κ σ) (g : γ) (place : Place) (rest : List UInt8) : Prop :=
  Window d place rest ∨
    (∀ offset, place ≠ .buffer offset) ∧ (S.pull.need g = 0 ∨ S.room ≤ S.pull.need g)

/-- What an action returns is what the parser makes of the bytes it asked for. -/
inductive Turned (S : Spec κ σ γ) (d : Decoder κ σ) (place : Place) (rest : List UInt8) :
    Turn γ Frame (Option Errno) → Verdict × Decoder κ σ → Prop where
  | more {g' : γ} {d' : Decoder κ σ} : At S d' g' place rest [] → SameBuffer d d' →
      Turned S d place rest (.more g') (.zero, d')
  | emit {g' : γ} {d' : Decoder κ σ} : At S d' g' place rest [] → SameBuffer d d' →
      Bare d'.inProgress → Turned S d place rest (.emit (frameOf d'.inProgress) g') (.one, d')
  | reject (e : Option Errno) (d' : Decoder κ σ) :
      Turned S d place rest (.reject e) (.minusOne e, d')

theorem Turned.of_same {turn : Turn γ Frame (Option Errno)} {result : Verdict × Decoder κ σ}
    (turned : Turned S d' place rest turn result) (same : SameBuffer d d') :
    Turned S d place rest turn result := by
  cases turned with
  | more stands same' => exact .more stands ⟨same'.1.trans same.1, same'.2.trans same.2⟩
  | emit stands same' bare =>
    exact .emit stands ⟨same'.1.trans same.1, same'.2.trans same.2⟩ bare
  | reject e d' => exact .reject e d'

/-- The obligations of a derived class. A part that is empty is the body of a message. -/
structure Implements (act : Action κ σ) (S : Spec κ σ γ) : Prop where
  empty : ∀ {g : γ}, S.pull.need g = 0 → ∃ f g', S.pull.turn g [] = .emit f g'
  ready : ∀ {g : γ} {s : List UInt8} {f : Frame} {g' : γ}, S.pull.turn g s = .emit f g' →
    S.scratch g' = true ∧ 0 < S.pull.need g'
  replaced : ∀ {next : κ} {own : σ} {flags flags' : UInt8} {g : γ}, S.scratch g = true →
    S.Abs next own flags g → S.Abs next own flags' g
  turn : ∀ {d : Decoder κ σ} {g : γ} {place : Place} {rest s : List UInt8},
    At S d g place rest s → d.toRead = 0 → Sited S d g place rest →
    ∃ result, act place d = .ok result ∧ Turned S d place rest (S.pull.turn g s) result

theorem Window.same (window : Window d place rest) (same : SameBuffer d d') :
    Window d' place rest := by
  obtain ⟨offset, at_, bound, size, input⟩ := window
  exact ⟨offset, at_, by rw [same.1]; exact bound, by rw [same.1, same.2]; exact size,
    by rw [same.1]; exact input⟩

theorem Window.advance (window : Window d place rest) (n : Nat) :
    Window d (place.advance (rest.take n).length) (rest.drop n) := by
  obtain ⟨offset, rfl, within, size, rfl⟩ := window
  refine ⟨offset + ((d.buf.drop offset).take n).length, rfl, ?_, size, ?_⟩
  · simp only [List.length_take, List.length_drop]
    omega
  · rw [List.drop_drop, List.length_take, List.length_drop]
    rcases Nat.le_total n (d.buf.length - offset) with fits | long
    · rw [Nat.min_eq_left fits]
    · rw [List.drop_eq_nil_of_le (by omega), List.drop_eq_nil_of_le (by omega)]

section

variable (input : Input S d place rest)
include input

theorem Input.isInput : place.IsInput := by
  rcases input with ⟨offset, rfl, -⟩ | ⟨-, offset, rfl⟩ <;> exact trivial

theorem Input.same (same : SameBuffer d d') : Input S d' place rest :=
  input.imp_left (·.same same)

theorem Input.advance (n : Nat) : Input S d (place.advance (rest.take n).length) (rest.drop n) := by
  rcases input with window | ⟨room, offset, rfl⟩
  · exact .inl (window.advance n)
  · exact .inr ⟨room, _, rfl⟩

theorem Input.sited (g : γ) : Sited S d g place rest := by
  rcases input with window | ⟨room, offset, rfl⟩
  · exact .inl window
  · exact .inr ⟨nofun, .inr (by omega)⟩

end

theorem Sited.empty (sited : Sited S d g place rest) (same : SameBuffer d d')
    (none : S.pull.need g' = 0) : Sited S d' g' place rest := by
  rcases sited with window | ⟨elsewhere, -⟩
  · exact .inl (window.same same)
  · exact .inr ⟨elsewhere, .inl none⟩

theorem At.toRead_of_nil (stands : At S d g place rest []) : d.toRead = S.pull.need g := by
  simpa using stands.need

/-- The decoder waits, and not for bytes that are in a buffer already. -/
structure Parked (d : Decoder κ σ) : Prop where
  waits : 0 < d.toRead
  elsewhere : ¬ d.readPos.IsInput

/-- The decoder stands at the start of a message, and the last one can be taken out of it. -/
structure Between (S : Spec κ σ γ) (d : Decoder κ σ) (g : γ) : Prop extends d.Parked where
  kind : S.scratch g = true

theorem Implements.between {f : Frame} (implements : Implements act S)
    (turn : S.pull.turn g s = .emit f g') (stands : At S d g' place rest []) : Between S d g' := by
  obtain ⟨kind, positive⟩ := implements.ready turn
  refine ⟨⟨by rw [stands.toRead_of_nil]; exact positive, ?_⟩, kind⟩
  cases stands.held with
  | tmpbuf _ at_ => simp [at_, Place.IsInput]
  | message kind' => simp [kind] at kind'
  | shared _ kind' => simp [kind] at kind'

theorem At.replaced (implements : Implements act S) (stands : At S d g place rest s)
    (kind : S.scratch g = true) (m : Msg) : At S { d with inProgress := m } g place rest s := by
  refine { stands with abs := implements.replaced kind stands.abs, held := ?_ }
  cases stands.held with
  | tmpbuf kind at_ holds bound => exact .tmpbuf kind at_ holds bound
  | message kind' => simp [kind] at kind'
  | shared _ kind' => simp [kind] at kind'

theorem At.parked (stands : At S d g place [] s) (waits : 0 < d.toRead) : d.Parked := by
  refine ⟨waits, ?_⟩
  cases stands.held with
  | tmpbuf _ at_ | message _ at_ => simp [at_, Place.IsInput]
  | shared _ _ _ _ _ bound => simp at bound; omega

theorem tmpbuf_of_held (held : Held true d place rest s) : d.tmpbuf.take s.length = s := by
  cases held with
  | tmpbuf _ _ holds => exact holds
  | message kind => cases kind
  | shared _ kind => cases kind

theorem data_of_held (held : Held false d place rest s) (complete : d.toRead = 0) :
    d.inProgress.data = s := by
  cases held with
  | tmpbuf kind => cases kind
  | message _ _ holds bound =>
    rw [← holds, List.take_of_length_le (by omega)]
  | shared _ _ _ _ holds => simpa [complete] using holds

theorem bare_of_held (held : Held false d place rest s) : Bare d.inProgress := by
  cases held with
  | tmpbuf kind => cases kind
  | message _ _ _ _ bare => exact bare
  | shared _ _ _ _ _ _ bare => exact bare

theorem getD_of_take {i : Nat} (bound : i < s.length) (holds : d.tmpbuf.take s.length = s) :
    d.tmpbuf.getD i 0 = s.getD i 0 := by
  rw [← holds] at bound ⊢
  simp only [List.getD_eq_getElem?_getD]
  rw [List.getElem?_take_of_lt (by simp at bound; omega)]

theorem At.first (stands : At S d g place rest s) (complete : d.toRead = 0)
    (kind : S.scratch g = true) (some : 0 < S.pull.need g) : d.tmpbuf.headD 0 = s.headD 0 := by
  have := stands.need
  simpa [List.head?_eq_getElem?] using
    getD_of_take (i := 0) (by omega) (tmpbuf_of_held (kind ▸ stands.held))

theorem At.refilled (stands : At S d g place rest s) (elsewhere : ¬ d.readPos.IsInput)
    (place' : Place) (rest' buf : List UInt8) (bufSize : Nat) :
    At S { d with buf := buf, bufSize := bufSize } g place' rest' s := by
  refine { stands with held := ?_ }
  cases stands.held with
  | tmpbuf kind at_ holds bound => exact .tmpbuf kind at_ holds bound
  | message kind at_ holds bound bare => exact .message kind at_ holds bound bare
  | shared offset _ here at_ =>
    rw [at_, here] at elsewhere
    exact absurd trivial elsewhere

section Settle

variable {n : Nat} {d₁ : Decoder κ σ} {verdict : Verdict}

theorem settle_of_more (complete : d.toRead = 0) (ran : act place d = .ok (.zero, d₁)) :
    settle act place (n + 1) d = settle act place n d₁ := by
  simp [settle, complete, ran]

theorem settle_of_done (complete : d.toRead = 0) (ran : act place d = .ok (verdict, d₁))
    (done : verdict ≠ .zero) : settle act place (n + 1) d = .ok (verdict, d₁) := by
  simp [settle, complete, ran, done]

theorem settle_of_waits (waits : d.toRead ≠ 0) : settle act place (n + 1) d = .ok (.zero, d) := by
  simp [settle, waits]

end Settle

def Fit (S : Spec κ σ γ) (d : Decoder κ σ) : Prop :=
  S.room ≤ d.maxSize ∧ 0 < d.maxSize ∧ d.tmpbuf.length = 8

theorem At.fit (stands : At S d g place rest s) : Fit S d :=
  ⟨stands.room, stands.positive, stands.scratch⟩

theorem At.begin {n : Nat} {next : κ} {m : Msg} {pos : Place} (fit : Fit S d)
    (abs : S.Abs next d.own m.flags g) (need : S.pull.need g = n)
    (held : Held (S.scratch g) ({ d with inProgress := m }.nextStep pos n next) place rest []) :
    At S ({ d with inProgress := m }.nextStep pos n next) g place rest [] :=
  ⟨abs, held, by simp [nextStep, need], fit.1, fit.2.1, fit.2.2⟩

theorem At.beginPart {n : Nat} {next : κ} (fit : Fit S d)
    (abs : S.Abs next d.own d.inProgress.flags g)
    (part : (S.scratch g, decide (n ≤ 8), S.pull.need g) = (true, true, n)) :
    At S (d.nextStep (.tmpbuf 0) n next) g place rest [] :=
  .begin fit abs (by simp_all)
    (.tmpbuf (congrArg Prod.fst part) rfl rfl (by simp_all [nextStep, fit.2.2]))

theorem At.beginBody {size : Nat} {flags : UInt8} {shared : Option Nat} {next : κ}
    (fit : Fit S d) (abs : S.Abs next d.own flags g)
    (fits : ∀ offset ∈ shared, place = .buffer offset ∧ Window d place rest ∧ size ≤ rest.length)
    (body : (S.scratch g, S.pull.need g) = (false, size)) :
    At S (d.beginBody size flags shared next) g place rest [] := by
  obtain ⟨kind, need⟩ := Prod.mk.inj body
  cases shared with
  | none =>
    exact .begin fit abs need
      (.message kind rfl rfl (by simp [nextStep, Msg.initSize]) ⟨rfl, rfl⟩)
  | some offset =>
    obtain ⟨at_, window, fits⟩ := fits offset rfl
    obtain ⟨offset', at', within, -, rfl⟩ := window
    obtain rfl : offset = offset' := by simpa [at_] using at'
    rw [Decoder.beginBody]
    split
    · refine .begin fit abs need (.message kind rfl rfl ?_ ⟨rfl, rfl⟩)
      simp only [nextStep, Msg.initSize, List.length_nil, List.length_take]
      omega
    · exact .begin fit abs need (.shared offset kind at_ at_.symm rfl fits ⟨rfl, rfl⟩)

theorem beginBody_same (size : Nat) (flags : UInt8) (shared : Option Nat) (next : κ) :
    SameBuffer d (d.beginBody size flags shared next) := by
  cases shared with
  | none => exact ⟨rfl, rfl⟩
  | some offset =>
    simp only [Decoder.beginBody]
    split <;> exact ⟨rfl, rfl⟩

inductive Settled (S : Spec κ σ γ) (g : γ) (s : List UInt8) (place : Place) (rest : List UInt8) :
    Verdict → Decoder κ σ → Prop where
  | waits {g' : γ} {s' : List UInt8} {d' : Decoder κ σ} : S.pull.Leads g s [] g' s' →
      At S d' g' place rest s' → 0 < d'.toRead →
      Settled S g s place rest .zero d'
  | message {g' : γ} {d' : Decoder κ σ} : S.pull.Leads g s [frameOf d'.inProgress] g' [] →
      At S d' g' place rest [] → Between S d' g' → Bare d'.inProgress →
      Settled S g s place rest .one d'
  | rejected {e : Option Errno} {d' : Decoder κ σ} : S.pull.Rejects g s [] e →
      Settled S g s place rest (.minusOne e) d'

theorem Implements.settle_empty (implements : Implements act S) (stands : At S d g place rest [])
    (sited : Sited S d g place rest) (none : S.pull.need g = 0) (n : Nat) :
    ∃ d', settle act place (n + 1) d = .ok (.one, d') ∧ Settled S g [] place rest .one d' ∧
      SameBuffer d d' := by
  have complete : d.toRead = 0 := stands.toRead_of_nil.trans none
  obtain ⟨f, g₁, turn⟩ := implements.empty none
  obtain ⟨result, ran, turned⟩ := implements.turn stands complete sited
  rw [turn] at turned
  cases turned with
  | emit stands' same bare =>
    refine ⟨_, settle_of_done complete ran (by simp), ?_, same⟩
    exact .message (.emit [] none.symm turn (.refl _ [])) stands'
      (implements.between turn stands') bare

theorem Implements.settle (implements : Implements act S) (stands : At S d g place rest s)
    (sited : Sited S d g place rest) :
    ∃ verdict d', Decoder.settle act place 2 d = .ok (verdict, d') ∧
      Settled S g s place rest verdict d' ∧ (verdict = .zero ∨ verdict = .one → SameBuffer d d') := by
  by_cases complete : d.toRead = 0
  · have length : s.length = S.pull.need g := by have := stands.need; omega
    obtain ⟨result, ran, turned⟩ := implements.turn stands complete sited
    generalize turn : S.pull.turn g s = taken at turned
    cases turned with
    | @more g₁ d₁ stands₁ same =>
      have leads := Pull.Leads.more _ length turn (.refl _ [])
      rw [List.append_nil] at leads
      rw [settle_of_more complete ran]
      by_cases empty : d₁.toRead = 0
      · have none : S.pull.need g₁ = 0 := stands₁.toRead_of_nil.symm.trans empty
        obtain ⟨d', ran', settled, same'⟩ :=
          implements.settle_empty stands₁ (sited.empty same none) none 0
        refine ⟨_, d', ran', ?_, fun _ => ⟨same'.1.trans same.1, same'.2.trans same.2⟩⟩
        cases settled with
        | message leads' stands' between bare =>
          exact .message (leads.trans leads') stands' between bare
      · refine ⟨.zero, d₁, settle_of_waits empty, ?_, fun _ => same⟩
        exact .waits leads stands₁ (Nat.pos_of_ne_zero empty)
    | @emit g₁ d₁ stands₁ same bare =>
      refine ⟨.one, d₁, settle_of_done complete ran (by simp), ?_, fun _ => same⟩
      have leads := Pull.Leads.emit _ length turn (.refl _ [])
      rw [List.append_nil] at leads
      exact .message leads stands₁ (implements.between turn stands₁) bare
    | reject e d₁ =>
      refine ⟨_, d₁, settle_of_done complete ran (by simp), ?_, by simp⟩
      exact .rejected ⟨g, s, [], by rw [List.append_nil]; exact .refl g s, length, turn⟩
  · refine ⟨.zero, d, settle_of_waits complete, ?_, fun _ => ⟨rfl, rfl⟩⟩
    exact .waits (.refl g s) stands (Nat.pos_of_ne_zero complete)

/-! ## Copying -/

variable {bytes left : List UInt8}

theorem length_overwrite {block : List UInt8} (bound : offset + bytes.length ≤ block.length) :
    (overwrite block offset bytes).length = block.length := by
  simp only [overwrite, List.length_append, List.length_take, List.length_drop]
  omega

theorem take_overwrite {block : List UInt8} (bound : offset + bytes.length ≤ block.length) :
    (overwrite block offset bytes).take (offset + bytes.length) = block.take offset ++ bytes := by
  have length : (block.take offset ++ bytes).length = offset + bytes.length := by
    simp only [List.length_append, List.length_take]
    omega
  rw [overwrite, ← length, List.take_left]

structure Copied (d d' : Decoder κ σ) (n : Nat) : Prop where
  next : d'.next = d.next
  own : d'.own = d.own
  flags : d'.inProgress.flags = d.inProgress.flags
  toRead : d'.toRead = d.toRead - n
  maxSize : d'.maxSize = d.maxSize
  tmpbuf : d'.tmpbuf.length = d.tmpbuf.length
  same : SameBuffer d d'

/-- The bytes that were asked for are put behind those that are there, by a copy or because they
    are in their place. -/
theorem Held.copy {scratch : Bool} (held : Held scratch d place rest s) (input : place.IsInput) :
    ∃ d₁, d.copyFrom place (rest.take d.toRead) = .ok d₁ ∧
      Copied d (d₁.consume (rest.take d.toRead).length) (rest.take d.toRead).length ∧
      Held scratch (d₁.consume (rest.take d.toRead).length)
        (place.advance (rest.take d.toRead).length) (rest.drop d.toRead)
        (s ++ rest.take d.toRead) := by
  have short : (rest.take d.toRead).length ≤ d.toRead := by
    simp only [List.length_take]
    omega
  generalize taken : rest.take d.toRead = part at short ⊢
  cases held with
  | tmpbuf kind at_ holds bound =>
    have fits : s.length + part.length ≤ d.tmpbuf.length := by omega
    refine ⟨{ d with tmpbuf := overwrite d.tmpbuf s.length part },
      by simp [copyFrom, at_, store, fits, input.ne_tmpbuf],
      ⟨rfl, rfl, rfl, rfl, rfl, length_overwrite fits, rfl, rfl⟩, .tmpbuf kind ?_ ?_ ?_⟩
    · simp [consume, at_, Place.advance]
    · rw [List.length_append, consume, take_overwrite fits, holds]
    · simp only [consume, List.length_append, length_overwrite fits]
      omega
  | message kind at_ holds bound bare =>
    have fits : s.length + part.length ≤ d.inProgress.data.length := by omega
    refine ⟨{ d with inProgress :=
        { d.inProgress with data := overwrite d.inProgress.data s.length part } },
      by simp [copyFrom, at_, store, fits, input.ne_message], ⟨rfl, rfl, rfl, rfl, rfl, rfl, rfl, rfl⟩,
      .message kind ?_ ?_ ?_ ⟨bare.group, bare.metadata⟩⟩
    · simp [consume, at_, Place.advance]
    · rw [List.length_append, consume, take_overwrite fits, holds]
    · simp only [consume, List.length_append, length_overwrite fits]
      omega
  | shared offset kind here at_ holds bound bare =>
    have all : part.length = d.toRead := by
      rw [← taken, List.length_take]
      omega
    refine ⟨d, if_pos at_, ⟨rfl, rfl, rfl, rfl, rfl, rfl, rfl, rfl⟩,
      .shared (offset + part.length) kind (by rw [here]; rfl) ?_ ?_ ?_ bare⟩
    · simp [consume, at_]
    · simp [consume, holds, taken, all]
    · simp [consume, all]

theorem At.copy (stands : At S d g place rest s) (input : place.IsInput) :
    ∃ d₁, d.copyFrom place (rest.take d.toRead) = .ok d₁ ∧
      SameBuffer d (d₁.consume (rest.take d.toRead).length) ∧
      At S (d₁.consume (rest.take d.toRead).length) g
        (place.advance (rest.take d.toRead).length) (rest.drop d.toRead)
        (s ++ rest.take d.toRead) := by
  obtain ⟨d₁, ran, copied, held⟩ := stands.held.copy input
  refine ⟨d₁, ran, copied.same, ?_, held, ?_, ?_, ?_, ?_⟩
  · rw [copied.next, copied.own, copied.flags]
    exact stands.abs
  · have need := stands.need
    rw [copied.toRead, List.length_append, List.length_take]
    omega
  · rw [copied.maxSize]
    exact stands.room
  · rw [copied.maxSize]
    exact stands.positive
  · rw [copied.tmpbuf]
    exact stands.scratch

/-! ## `decode` -/

/-- How `decode` ends when it is given bytes at a place, `all` together with those held before. -/
inductive Decoded (S : Spec κ σ γ) (g : γ) (all : List UInt8) (place : Place) (size : Nat) :
    Verdict → List UInt8 → Decoder κ σ → Prop where
  | waits {g' : γ} {s' : List UInt8} {d' : Decoder κ σ} {place' : Place} :
      S.pull.Leads g all [] g' s' → At S d' g' place' [] s' → 0 < d'.toRead →
      Decoded S g all place size .zero [] d'
  | message {g' : γ} {rest : List UInt8} {d' : Decoder κ σ} :
      S.pull.Leads g all [frameOf d'.inProgress] g' rest →
      At S d' g' (place.advance (size - rest.length)) rest [] → Between S d' g' →
      Bare d'.inProgress →
      rest = [] ∨ Input S d' (place.advance (size - rest.length)) rest → rest.length < size →
      Decoded S g all place size .one rest d'
  | rejected {e : Option Errno} {rest : List UInt8} {d' : Decoder κ σ} :
      S.pull.Rejects g all [] e → Decoded S g all place size (.minusOne e) rest d'

theorem Decoded.after {part : List UInt8} {size : Nat} {verdict : Verdict} (place : Place)
    (leads : S.pull.Leads g (s ++ part) [] g' s')
    (decoded : Decoded S g' (s' ++ rest) (place.advance part.length) size verdict left d') :
    Decoded S g (s ++ (part ++ rest)) place (part.length + size) verdict left d' := by
  have leads := leads.append rest
  rw [List.append_assoc] at leads
  cases decoded with
  | waits onward stands positive => exact .waits (leads.trans onward) stands positive
  | message onward stands positive bare window less =>
    have moved : (place.advance part.length).advance (size - left.length) =
        place.advance (part.length + size - left.length) := by
      cases place <;> simp [Place.advance] <;> omega
    rw [moved] at stands window
    exact .message (leads.trans onward) stands positive bare window (by omega)
  | rejected rejects => exact .rejected (leads.rejects rejects)

theorem Implements.copyLoop (implements : Implements act S) {n : Nat}
    (stands : At S d g place rest s) (input : Input S d place rest) (waits : 0 < d.toRead)
    (enough : rest.length ≤ n) :
    ∃ verdict left d', Decoder.copyLoop act n place rest d = .ok (verdict, left, d') ∧
      Decoded S g (s ++ rest) place rest.length verdict left d' := by
  induction n generalizing d g place rest s with
  | zero =>
    obtain rfl : rest = [] := List.eq_nil_of_length_eq_zero (by omega)
    refine ⟨.zero, [], d, rfl, ?_⟩
    rw [List.append_nil]
    exact .waits (.refl g s) stands waits
  | succ n ih =>
    by_cases none : rest = []
    · subst none
      refine ⟨.zero, [], d, by simp [Decoder.copyLoop], ?_⟩
      rw [List.append_nil]
      exact .waits (.refl g s) stands waits
    · have some : 0 < rest.length := List.length_pos_iff.mpr none
      obtain ⟨d₁, stored, same, stands₁⟩ := stands.copy input.isInput
      have length : (rest.take d.toRead).length + (rest.drop d.toRead).length = rest.length := by
        rw [← List.length_append, List.take_append_drop]
      have fewer : (rest.drop d.toRead).length < rest.length := by
        rw [List.length_drop]
        omega
      have whole : rest.take d.toRead ++ rest.drop d.toRead = rest := List.take_append_drop ..
      have input₁ := (input.same same).advance d.toRead
      obtain ⟨verdict, d₂, settled, outcome, kept⟩ := implements.settle stands₁ (input₁.sited g)
      simp only [Decoder.copyLoop, none, stored, ok_bind, settled]
      cases outcome with
      | waits leads stands₂ positive =>
        obtain ⟨verdict, left, d', ran, decoded⟩ :=
          ih stands₂ (input₁.same (kept (.inl rfl))) positive (by omega)
        refine ⟨verdict, left, d', by simpa using ran, ?_⟩
        have := Decoded.after place leads decoded
        rwa [whole, length] at this
      | message leads stands₂ positive bare =>
        refine ⟨.one, rest.drop d.toRead, d₂, by simp, ?_⟩
        have leads := leads.append (rest.drop d.toRead)
        rw [List.append_assoc, whole, List.nil_append] at leads
        have moved : rest.length - (rest.drop d.toRead).length =
            (rest.take d.toRead).length := by omega
        refine .message leads ?_ positive bare (.inr ?_) fewer
        · rw [moved]
          exact stands₂
        · rw [moved]
          exact input₁.same (kept (.inr rfl))
      | rejected rejects =>
        refine ⟨_, rest.drop d.toRead, d₂, by simp; rfl, ?_⟩
        have rejects := rejects.append (rest.drop d.toRead)
        rw [List.append_assoc, whole] at rejects
        exact .rejected rejects

theorem Implements.decode_input (implements : Implements act S) (stands : At S d g place rest s)
    (input : Input S d place rest) (parked : d.Parked) :
    ∃ verdict left d', decode act place rest d = .ok (verdict, left, d') ∧
      Decoded S g (s ++ rest) place rest.length verdict left d' := by
  have elsewhere : place ≠ d.readPos := fun same => parked.elsewhere (same ▸ input.isInput)
  rw [decode, if_neg elsewhere]
  exact implements.copyLoop stands input parked.waits (Nat.le_refl _)

theorem fill_elsewhere {d₁ : Decoder κ σ} (elsewhere : ¬ place.IsInput)
    (stored : store place bytes d = .ok d₁) :
    d.fill place bytes = .ok { d₁ with bufSize := bytes.length } ∧ d₁.readPos = d.readPos ∧
      d₁.toRead = d.toRead := by
  cases place with
  | buffer offset | greeting offset => exact absurd trivial elsewhere
  | tmpbuf offset | message offset =>
    refine ⟨by simp [fill, stored, Except.map], ?_⟩
    simp only [store] at stored
    split at stored
    · cases stored
      exact ⟨rfl, rfl⟩
    · cases stored

theorem Implements.decode_direct (implements : Implements act S) {chunk : List UInt8}
    (stands : At S d g place [] s) (waits : 0 < d.toRead) (long : d.maxSize ≤ d.toRead)
    (some : chunk ≠ []) (fits : chunk.length ≤ d.toRead) :
    ∃ d₁ verdict left d', d.getBuffer.2.fill d.readPos chunk = .ok d₁ ∧
      decode act d.readPos chunk d₁ = .ok (verdict, left, d') ∧
      Decoded S g (s ++ chunk) d.readPos chunk.length verdict left d' := by
  have parked := stands.parked waits
  have whole : chunk.take d.toRead = chunk := List.take_of_length_le fits
  -- The bytes come to where a copy from anywhere else would put them.
  obtain ⟨d₁, stored, -, stands₁⟩ :=
    (stands.refilled parked.elsewhere (.greeting 0) chunk [] d.maxSize).copy trivial
  simp only [whole] at stored stands₁
  rw [copyFrom, if_neg fun same => parked.elsewhere (by rw [show d.readPos = _ from same]; trivial)]
    at stored
  obtain ⟨filled, at_, same⟩ := fill_elsewhere parked.elsewhere stored
  have beyond : ¬ (d.readPos.advance chunk.length).IsInput := by
    rw [Place.advance_isInput]
    exact parked.elsewhere
  have stands₂ := stands₁.refilled
    (by rw [show (d₁.consume _).readPos = d₁.readPos.advance _ from rfl, at_]; exact beyond)
    (d.readPos.advance chunk.length) [] d₁.buf chunk.length
  have sited : Sited S (consume chunk.length { d₁ with bufSize := chunk.length }) g
      (d.readPos.advance chunk.length) [] := by
    refine .inr ⟨fun offset here => beyond (by rw [here]; trivial), .inr ?_⟩
    have := stands.need
    have := stands.room
    omega
  obtain ⟨verdict, d', ran, settled, -⟩ := implements.settle stands₂ sited
  refine ⟨_, verdict, [], d', filled, ?_, ?_⟩
  · rw [decode, if_pos (show d.readPos = d₁.readPos from at_.symm),
      if_pos (show chunk.length ≤ d₁.toRead by rw [same]; exact fits)]
    exact congrArg (· >>= _) ran
  · cases settled with
    | waits leads stands' positive => exact .waits leads stands' positive
    | message leads stands' between bare =>
      exact .message leads (by simpa using stands') between bare (.inl rfl)
        (List.length_pos_iff.mpr some)
    | rejected rejects => exact .rejected rejects

theorem Implements.read (implements : Implements act S) (chunk : List UInt8)
    (stands : At S d g place [] s) (waits : 0 < d.toRead) (some : chunk ≠ [])
    (fits : chunk.length ≤ d.getBuffer.1.2) :
    ∃ d₁ verdict left d', d.getBuffer.2.fill d.getBuffer.1.1 chunk = .ok d₁ ∧
      decode act d.getBuffer.1.1 chunk d₁ = .ok (verdict, left, d') ∧
      Decoded S g (s ++ chunk) d.getBuffer.1.1 chunk.length verdict left d' := by
  by_cases long : d.maxSize ≤ d.toRead
  · have given : d.getBuffer.1 = (d.readPos, d.toRead) := by simp [getBuffer, long]
    rw [given] at fits ⊢
    exact implements.decode_direct stands waits long some fits
  · have given : d.getBuffer.1 = (.buffer 0, d.maxSize) := by simp [getBuffer, long]
    rw [given]
    have parked := stands.parked waits
    obtain ⟨verdict, left, d', ran, decoded⟩ := implements.decode_input
      (stands.refilled parked.elsewhere (.buffer 0) chunk chunk chunk.length)
      (.inl ⟨0, rfl, Nat.zero_le _, rfl, rfl⟩) ⟨parked.waits, parked.elsewhere⟩
    exact ⟨_, verdict, left, d', rfl, ran, decoded⟩

/-! ## Streams -/

inductive Drained (S : Spec κ σ γ) (g : γ) (all : List UInt8) :
    List Msg → Verdict → List UInt8 → Decoder κ σ → Prop where
  | waits {msgs : List Msg} {g' : γ} {s' : List UInt8} {d' : Decoder κ σ} {place : Place} :
      S.pull.Leads g all (msgs.map frameOf) g' s' → At S d' g' place [] s' → 0 < d'.toRead →
      Drained S g all msgs .zero [] d'
  | rejected {msgs : List Msg} {e : Option Errno} {left : List UInt8} {d' : Decoder κ σ} :
      S.pull.Rejects g all (msgs.map frameOf) e → Drained S g all msgs (.minusOne e) left d'

theorem Drained.after {m : Msg} {verdict : Verdict} (leads : S.pull.Leads g all [frameOf m] g' rest)
    (drained : Drained S g' rest msgs verdict left d') :
    Drained S g all (m :: msgs) verdict left d' := by
  cases drained with
  | waits onward stands positive => exact .waits (leads.trans onward) stands positive
  | rejected rejects => exact .rejected (leads.rejects rejects)

theorem Implements.drain (implements : Implements act S) {n : Nat} {verdict : Verdict}
    {d₁ : Decoder κ σ} (some : rest ≠ []) (ran : decode act place rest d = .ok (verdict, left, d₁))
    (decoded : Decoded S g all place rest.length verdict left d₁) (enough : rest.length ≤ n) :
    ∃ msgs verdict left d', Decoder.drain act n place rest d = .ok (msgs, verdict, left, d') ∧
      Drained S g all msgs verdict left d' := by
  induction n generalizing d g place rest all verdict left d₁ with
  | zero => exact absurd (List.eq_nil_of_length_eq_zero (by omega)) some
  | succ n ih =>
    cases decoded with
    | waits leads stands positive =>
      refine ⟨[], .zero, [], d₁, ?_, .waits leads stands positive⟩
      simp [Decoder.drain, some, ran]
    | rejected rejects =>
      refine ⟨[], _, left, d₁, ?_, .rejected rejects⟩
      simp [Decoder.drain, some, ran]
    | message leads stands between bare input fewer =>
      by_cases done : left = []
      · subst done
        refine ⟨[d₁.inProgress], .zero, [], d₁, ?_,
          .after leads (.waits (.refl _ _) stands between.waits)⟩
        cases n with
        | zero | succ => simp [Decoder.drain, some, ran]
      · obtain ⟨verdict', left', d₂, ran', decoded'⟩ :=
          implements.decode_input stands (input.resolve_left done) between.toParked
        obtain ⟨msgs, verdict'', left'', d', ran'', drained⟩ :=
          ih done ran' decoded' (by omega)
        refine ⟨d₁.inProgress :: msgs, verdict'', left'', d', ?_, .after leads drained⟩
        simp [Decoder.drain, some, ran, ran'']

/-- What a decoder made of a stream is what the parser makes of the part that was read. -/
inductive Received (S : Spec κ σ γ) (g : γ) (s stream : List UInt8) (reads : Nat)
    (r : Intake κ σ) : Prop where
  | waits (read : List UInt8) {g' : γ} {s' : List UInt8} : r.verdict = .zero → r.left = [] →
      stream = read ++ r.unread → S.pull.Leads g (s ++ read) (r.msgs.map frameOf) g' s' →
      s'.length < S.pull.need g' → r.unread.length ≤ stream.length - reads →
      Received S g s stream reads r
  | rejected (read : List UInt8) {e : Option Errno} : r.verdict = .minusOne e →
      stream = read ++ r.unread → S.pull.Rejects g (s ++ read) (r.msgs.map frameOf) e →
      Received S g s stream reads r

theorem At.waiting (stands : At S d g place rest s) (waits : 0 < d.toRead) :
    s.length < S.pull.need g := by
  have := stands.need
  omega

theorem Received.after {read : List UInt8} {reads : Nat}
    (leads : S.pull.Leads g (s ++ read) (msgs.map frameOf) g' s') (some : read ≠ [])
    (received : Received S g' s' stream reads r) :
    Received S g s (read ++ stream) (reads + 1) { r with msgs := msgs ++ r.msgs } := by
  cases received with
  | @waits read' _ _ verdict left all onward waiting fewer =>
    have leads := leads.append read'
    rw [List.append_assoc] at leads
    have both := leads.trans onward
    rw [← List.map_append] at both
    refine .waits (read ++ read') verdict left (by rw [all, List.append_assoc]) both
      waiting ?_
    have := List.length_pos_iff.mpr some
    simp only [List.length_append]
    omega
  | @rejected read' e verdict all rejects =>
    have leads := leads.append read'
    rw [List.append_assoc] at leads
    have both := leads.rejects rejects
    rw [← List.map_append] at both
    exact .rejected (read ++ read') verdict (by rw [all, List.append_assoc]) both

/-- However a stream is cut, the decoder makes of it what the parser makes of the whole. -/
theorem Implements.receive (implements : Implements act S) (stands : At S d g place [] s)
    (waits : 0 < d.toRead) (reads : List Nat) (stream : List UInt8) :
    ∃ r, Decoder.receive act reads stream d = .ok r ∧ Received S g s stream reads.length r := by
  induction reads generalizing d g place s stream with
  | nil =>
    refine ⟨_, rfl, .waits [] rfl rfl rfl ?_ (stands.waiting waits) (by simp)⟩
    rw [List.append_nil]
    exact .refl g s
  | cons n reads ih =>
    by_cases none : stream = []
    · refine ⟨⟨[], .zero, [], [], d.getBuffer.2⟩, by simp [Decoder.receive, none], ?_⟩
      refine .waits [] rfl rfl none ?_ (stands.waiting waits) (by simp)
      rw [List.append_nil]
      exact .refl g s
    · have positive : 0 < d.getBuffer.1.2 := by
        simp only [getBuffer]
        split <;> simp only <;> omega
      generalize cut : min (n + 1) d.getBuffer.1.2 = size
      have some : stream.take size ≠ [] := by
        simp only [ne_eq, List.take_eq_nil_iff, none, or_false]
        omega
      obtain ⟨d₁, verdict₁, left₁, d₂, filled, ran, decoded⟩ :=
        implements.read (stream.take size) stands waits some
          (by rw [List.length_take]; omega)
      obtain ⟨msgs, verdict, left, d', drained, outcome⟩ :=
        implements.drain some ran decoded (Nat.le_refl _)
      have split : stream = stream.take size ++ stream.drop size := (List.take_append_drop ..).symm
      simp only [Decoder.receive, none, cut, filled, ok_bind, drained]
      cases outcome with
      | waits leads stands' positive' =>
        obtain ⟨r, ran', received⟩ := ih stands' positive' (stream.drop size)
        refine ⟨{ r with msgs := msgs ++ r.msgs }, by simp [ran'], ?_⟩
        rw [split]
        exact .after leads some received
      | rejected rejects =>
        exact ⟨_, if_neg (by simp), .rejected _ rfl split rejects⟩

/-- The beginning of a stream that the parser gets through is read to its end; if it is the whole
    stream then the messages are what the parser makes of it. -/
theorem Received.of_leads {outs : List Frame} {later : List UInt8} {reads : Nat}
    (received : Received S g s stream reads r)
    (leads : S.pull.Leads g (s ++ (stream ++ later)) outs g' []) (waits : 0 < S.pull.need g') :
    r.verdict = .zero ∧ r.left = [] ∧ r.msgs.map frameOf <+: outs ∧
      (stream.length ≤ reads → r.unread = []) ∧
      (later = [] → r.unread = [] → r.msgs.map frameOf = outs) := by
  cases received with
  | @waits read _ _ verdict left all onward waiting fewer =>
    have begins : r.msgs.map frameOf <+: outs := by
      have onward := onward.append (r.unread ++ later)
      rw [List.append_assoc, ← List.append_assoc read, ← all] at onward
      obtain ⟨others, same, -⟩ := onward.of_waiting leads waits
      exact ⟨others, same.symm⟩
    refine ⟨verdict, left, begins, fun enough => List.eq_nil_of_length_eq_zero (by omega), ?_⟩
    intro whole none
    rw [none, List.append_nil] at all
    rw [whole, List.append_nil] at leads
    rw [← all] at onward
    exact onward.unique waiting leads waits
  | @rejected read e verdict all rejects =>
    have rejects := rejects.append (r.unread ++ later)
    rw [List.append_assoc, ← List.append_assoc read, ← all] at rejects
    obtain ⟨rest, -, rejects⟩ := leads.of_rejecting rejects
    exact absurd rejects (Pull.not_rejects_of_waiting waits)

/-! ## Bodies in the buffer -/

/-- The actions, watched: it is a fault to make a message in place of anything but bytes that the
    last read put into the buffer, from where the header ends. -/
def watched (act : Action κ σ) : Action κ σ := fun place d => do
  let (verdict, made) ← act place d
  match verdict, made.readPos with
  | .zero, .buffer start =>
    if place = .buffer start ∧ start + made.toRead ≤ d.buf.length then .ok (verdict, made)
    else .error .outOfBounds
  | _, _ => .ok (verdict, made)

theorem Implements.watched (implements : Implements act S) : Implements (watched act) S where
  __ := implements
  turn := by
    intro d g place rest s stands complete sited
    obtain ⟨result, ran, turned⟩ := implements.turn stands complete sited
    refine ⟨result, ?_, turned⟩
    rw [Decoder.watched, ran]
    generalize S.pull.turn g s = turn at turned
    cases turned with
    | reject | emit => rfl
    | more stands' same =>
      cases stands'.held with
      | tmpbuf _ at_ | message _ at_ => simp [at_]
      | shared offset _ here at_ _ fits =>
        obtain ⟨_, there, within, -, rfl⟩ := sited.resolve_right fun elsewhere => elsewhere.1 _ here
        cases here.symm.trans there
        rw [List.length_drop] at fits
        simp only [ok_bind, at_, here]
        exact if_pos ⟨trivial, by omega⟩

end Decoder

end Zmq.Wire
