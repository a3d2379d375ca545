import Zmq.Wire.Receiver
import Zmq.Wire.V2

/-! # From the wire to the session

The input of a ZMTP 3 engine from the first command on: the commands of the handshake, then
`write_credential`, `decode_and_push` and `push_one_then_decode_and_push`. The mechanism and the
session are given by what they answer. A mechanism does not mind how a message is stored, and a
session leaves a message alone that it does not take. What a PING sets off is not here.
-/

namespace Zmq

def Msg.setMetadata (m : Msg) (metadata : Nat) : Except Fault Msg :=
  if m.metadata = none then .ok { m with metadata := some metadata }
  else .error (.assertion .setMetadata)

namespace Wire

open Lib Receiver

/-- What `push_msg` answers: 0 and what it leaves of the message, or -1 with `errno`. -/
inductive Pushed (ω : Type) where
  | taken (left : Msg) (session : ω)
  | refused (errno : Errno) (session : ω)

/-- The calls of an engine on its mechanism and its session. -/
structure Peers (μ ω : Type) where
  /-- `process_handshake_command`, and whether `mechanism_ready` follows; none is -1. -/
  handshake : μ → Frame → Option (Bool × μ)
  decode : μ → Frame → Option (Frame × μ)
  getUserId : μ → List UInt8
  /-- The `_metadata` that `mechanism_ready` makes of the properties. -/
  metadata : μ → Option Nat
  pushMsg : ω → Msg → Pushed ω

/-- `_process_msg` of an engine with a mechanism. -/
inductive DataStep where
  | processHandshakeCommand
  | writeCredential
  | decodeAndPush
  | pushOneThenDecodeAndPush
  deriving Repr, DecidableEq

/-- What the input of an engine works with. The last four fields are for the record: how many
    frames were commands of the handshake, the mechanism at the end of it, the frames it was given
    to decode since, and the messages that `push_msg` has returned 0 for. -/
structure DataPhase (μ ω : Type) where
  processMsg : DataStep
  mechanism : μ
  session : ω
  metadata : Option Nat
  before : Nat
  origin : μ
  asked : List Frame
  accepted : List Msg

namespace DataPhase

variable {μ ω : Type} (peers : Peers μ ω) {w' : DataPhase μ ω}

def new (mechanism : μ) (session : ω) : DataPhase μ ω where
  processMsg := .processHandshakeCommand
  mechanism := mechanism
  session := session
  metadata := none
  before := 0
  origin := mechanism
  asked := []
  accepted := []

/-- What `_process_msg` returns, with what is left of the message, `errno` and the state. -/
abbrev Result (μ ω : Type) := Bool × Msg × Errno × DataPhase μ ω

def ready (mechanism : μ) (w : DataPhase μ ω) : DataPhase μ ω :=
  { w with
    processMsg := .writeCredential
    mechanism := mechanism
    origin := mechanism
    metadata := peers.metadata mechanism }

def processHandshakeCommand (errno : Errno) (m : Msg) (w : DataPhase μ ω) : Result μ ω :=
  match peers.handshake w.mechanism (frameOf m) with
  | none => (false, m, .eproto, w)
  | some (done, mechanism) =>
    let w := { w with mechanism := mechanism, before := w.before + 1 }
    (true, m, errno, if done then ready peers mechanism w else w)

def push (errno : Errno) (m : Msg) (w : DataPhase μ ω) : Result μ ω :=
  match peers.pushMsg w.session m with
  | .taken left session =>
    (true, left, errno, { w with session := session, accepted := w.accepted ++ [m] })
  | .refused errno session => (false, m, errno, { w with session := session })

/-- The message as it is pushed: the type of a command is known by its flags, and the metadata of
    the connection is attached. -/
def attach (m : Msg) (w : DataPhase μ ω) : Except Fault Msg :=
  let m := if m.command then m.named else m
  match w.metadata with
  | none => .ok m
  | some metadata => m.setMetadata metadata

def decodeAndPush (errno : Errno) (m : Msg) (w : DataPhase μ ω) : Except Fault (Result μ ω) :=
  let asked := w.asked ++ [frameOf m]
  match peers.decode w.mechanism (frameOf m) with
  | none => .ok (false, m, .eproto, { w with asked := asked })
  | some (decoded, mechanism) => do
      let m ← attach { m with flags := decoded.flags, data := decoded.data } w
      let (done, m, errno, w) := push peers errno m { w with asked := asked, mechanism := mechanism }
      .ok (done, m, errno,
        if done || errno != .eagain then w
        else { w with processMsg := .pushOneThenDecodeAndPush })

def pushOneThenDecodeAndPush (errno : Errno) (m : Msg) (w : DataPhase μ ω) : Result μ ω :=
  let (done, m, errno, w) := push peers errno m w
  (done, m, errno, if done then { w with processMsg := .decodeAndPush } else w)

def credentialMsg (userId : List UInt8) : Msg :=
  { Msg.initSize userId with flags := MsgFlag.credential }

def writeCredential (errno : Errno) (m : Msg) (w : DataPhase μ ω) : Except Fault (Result μ ω) :=
  let userId := peers.getUserId w.mechanism
  if userId = [] then decodeAndPush peers errno m { w with processMsg := .decodeAndPush }
  else
    let (done, _, errno, w) := push peers errno (credentialMsg userId) w
    if done then decodeAndPush peers errno m { w with processMsg := .decodeAndPush }
    else .ok (false, m, errno, w)

def handle : Handler (DataPhase μ ω) := fun w errno m =>
  match w.processMsg with
  | .processHandshakeCommand => .ok (processHandshakeCommand peers errno m w)
  | .writeCredential => writeCredential peers errno m w
  | .decodeAndPush => decodeAndPush peers errno m w
  | .pushOneThenDecodeAndPush => .ok (pushOneThenDecodeAndPush peers errno m w)

/-- What happens outside of the input: the session goes on, and the mechanism until it is ready,
    which may be found out when output is asked for. -/
inductive Elsewhere : DataPhase μ ω → DataPhase μ ω → Prop where
  | session (w : DataPhase μ ω) (session : ω) : Elsewhere w { w with session := session }
  | handshaking (w : DataPhase μ ω) (mechanism : μ) (session : ω) :
      w.processMsg = .processHandshakeCommand →
      Elsewhere w { w with mechanism := mechanism, session := session }
  | ready (w : DataPhase μ ω) (mechanism : μ) (session : ω) :
      w.processMsg = .processHandshakeCommand →
      Elsewhere w (ready peers mechanism { w with session := session })

/-! ## What the session gets -/

def seen (m : Msg) : Frame × Option Nat := (frameOf m, m.metadata)

def decodeAll (decode : μ → Frame → Option (Frame × μ)) (m : μ) (frames : List Frame) :
    Option (List Frame × μ) :=
  frames.foldlM (fun (done, m) f => (decode m f).map fun (d, m) => (done ++ [d], m)) ([], m)

variable {frames : List Frame}

theorem decodeAll_snoc {decode : μ → Frame → Option (Frame × μ)} {m m' m'' : μ} {done : List Frame}
    {f d : Frame} (before : decodeAll decode m frames = some (done, m'))
    (last : decode m' f = some (d, m'')) :
    decodeAll decode m (frames ++ [f]) = some (done ++ [d], m'') := by
  rw [decodeAll] at before ⊢
  simp [before, last]

def arrival (metadata : Option Nat) (f : Frame) : Frame × Option Nat :=
  let m : Msg := { flags := f.flags, data := f.data }
  (frameOf (if m.command then m.named else m), metadata)

def credential (mechanism : μ) : List (Frame × Option Nat) :=
  if peers.getUserId mechanism = [] then []
  else [seen (credentialMsg (peers.getUserId mechanism))]

def Delivered (frames : List Frame) (w : DataPhase μ ω) (mechanism : μ) : Prop :=
  ∃ done, decodeAll peers.decode w.origin frames = some (done, mechanism) ∧
    w.accepted.map seen = credential peers w.origin ++ done.map (arrival w.metadata)

/-- Where the input of an engine stands after some frames: those of the handshake, those of the
    data phase that were taken, and one that was not. -/
inductive Course : List Frame → Outcome → DataPhase μ ω → Prop where
  | handshaking {hs : List Frame} {w : DataPhase μ ω} : w.processMsg = .processHandshakeCommand →
      w.before = hs.length → w.asked = [] → w.accepted = [] → Course hs .taken w
  | begun {hs : List Frame} {w : DataPhase μ ω} : w.processMsg = .writeCredential →
      w.before = hs.length → w.asked = [] → w.accepted = [] → w.mechanism = w.origin →
      Course hs .taken w
  | going {hs fs : List Frame} {w : DataPhase μ ω} : w.processMsg = .decodeAndPush →
      w.before = hs.length → w.asked = fs → Delivered peers fs w w.mechanism →
      Course (hs ++ fs) .taken w
  | held {hs : List Frame} {m : Msg} {w : DataPhase μ ω} : w.processMsg = .writeCredential →
      w.before = hs.length → w.asked = [] → w.accepted = [] → w.mechanism = w.origin → Bare m →
      Course (hs ++ [frameOf m]) (.again m) w
  | pending {hs fs : List Frame} {f d : Frame} {m : Msg} {mechanism : μ} {w : DataPhase μ ω} :
      w.processMsg = .pushOneThenDecodeAndPush → w.before = hs.length → w.asked = fs ++ [f] →
      Delivered peers fs w mechanism → peers.decode mechanism f = some (d, w.mechanism) →
      seen m = arrival w.metadata d → Course (hs ++ (fs ++ [f])) (.again m) w
  | broken {hs fs : List Frame} {f : Frame} {w : DataPhase μ ω} : w.before = hs.length →
      fs <+: w.asked → w.asked <+: fs ++ [f] →
      w.processMsg ≠ .processHandshakeCommand ∧ (∃ mechanism, Delivered peers fs w mechanism) ∨
        fs = [] ∧ w.accepted = [] →
      Course (hs ++ (fs ++ [f])) .broken w

variable {peers} {hs fs : List Frame} {m : Msg} {w : DataPhase μ ω}

theorem Delivered.same {mechanism : μ} (delivered : Delivered peers fs w mechanism)
    (origin : w'.origin = w.origin := by rfl) (accepted : w'.accepted = w.accepted := by rfl)
    (metadata : w'.metadata = w.metadata := by rfl) : Delivered peers fs w' mechanism := by
  rw [Delivered, origin, accepted, metadata]
  exact delivered

theorem named_eq (m : Msg) :
    m.named = { m with flags := (Msg.named { flags := m.flags, data := m.data }).flags } := by
  have same (name : List UInt8) :
      Msg.isNamed { flags := m.flags, data := m.data } name = m.isNamed name := rfl
  simp only [Msg.named, same]
  cases m.isNamed [80, 73, 78, 71] <;> cases m.isNamed [80, 79, 78, 71] <;>
    cases m.isNamed [83, 85, 66, 83, 67, 82, 73, 66, 69] <;>
    cases m.isNamed [67, 65, 78, 67, 69, 76] <;> rfl

theorem attach_bare (bare : Bare m) (decoded : Frame) (w : DataPhase μ ω) :
    ∃ m', attach { m with flags := decoded.flags, data := decoded.data } w = .ok m' ∧
      seen m' = arrival w.metadata decoded := by
  have named : ∃ flags, (if Msg.command { m with flags := decoded.flags, data := decoded.data } then
        Msg.named { m with flags := decoded.flags, data := decoded.data }
      else { m with flags := decoded.flags, data := decoded.data }) =
      { m with flags := flags, data := decoded.data } ∧
      arrival w.metadata decoded = (⟨flags, decoded.data⟩, w.metadata) := by
    rw [named_eq]
    by_cases command : Msg.command { flags := decoded.flags, data := decoded.data } = true
    · refine ⟨(Msg.named { flags := decoded.flags, data := decoded.data }).flags, if_pos command, ?_⟩
      rw [arrival, if_pos command, named_eq]
      rfl
    · exact ⟨decoded.flags, if_neg command, by rw [arrival, if_neg command]; rfl⟩
  obtain ⟨flags, named, arrives⟩ := named
  simp only [attach, named, arrives]
  cases w.metadata with
  | none => exact ⟨_, rfl, by rw [seen, bare.metadata]; rfl⟩
  | some metadata =>
    simp only [bare.metadata]
    exact ⟨_, rfl, rfl⟩

theorem push_cases (peers : Peers μ ω) (errno : Errno) (m : Msg) (w : DataPhase μ ω) :
    (∃ left session, push peers errno m w =
        (true, left, errno, { w with session := session, accepted := w.accepted ++ [m] })) ∨
      ∃ errno' session, push peers errno m w = (false, m, errno', { w with session := session }) := by
  unfold push
  cases peers.pushMsg w.session m with
  | taken left session => exact .inl ⟨left, session, rfl⟩
  | refused errno session => exact .inr ⟨errno, session, rfl⟩

theorem Delivered.snoc {mechanism mechanism' : μ} {f d : Frame}
    (delivered : Delivered peers fs w mechanism)
    (last : peers.decode mechanism f = some (d, mechanism')) (origin : w'.origin = w.origin)
    (accepted : w'.accepted = w.accepted ++ [m]) (metadata : w'.metadata = w.metadata)
    (arrives : seen m = arrival w.metadata d) : Delivered peers (fs ++ [f]) w' mechanism' := by
  obtain ⟨done, decodes, gets⟩ := delivered
  refine ⟨done ++ [d], by rw [origin]; exact decodeAll_snoc decodes last, ?_⟩
  rw [accepted, List.map_append, gets, origin, metadata, List.append_assoc, List.map_append,
    List.map_singleton, List.map_singleton, arrives]

theorem Course.broken_first (before : w.before = hs.length) (asked : w.asked = [])
    (accepted : w.accepted = []) (f : Frame) : Course peers (hs ++ [f]) .broken w := by
  have none : ([] : List Frame) <+: w.asked := List.nil_prefix
  have most : w.asked <+: [] ++ [f] := by simp [asked]
  exact .broken before none most (.inr ⟨rfl, accepted⟩)

theorem decodeAndPush_course (step : w.processMsg = .decodeAndPush) (before : w.before = hs.length)
    (asked : w.asked = fs) (delivered : Delivered peers fs w w.mechanism) (bare : Bare m)
    (errno : Errno) :
    ∃ done m' e' w', decodeAndPush peers errno m w = .ok (done, m', e', w') ∧
      Course peers (hs ++ (fs ++ [frameOf m])) (.of done m' e') w' := by
  simp only [decodeAndPush]
  cases decodes : peers.decode w.mechanism (frameOf m) with
  | none =>
    refine ⟨false, m, .eproto, _, rfl, .broken before ?_ ?_ (.inl ⟨by simp [step], w.mechanism, ?_⟩)⟩
    · exact ⟨[frameOf m], by rw [asked]⟩
    · simp [asked]
    · exact delivered.same
  | some decoded =>
    obtain ⟨d, mechanism⟩ := decoded
    obtain ⟨m', attached, arrives⟩ := attach_bare bare d w
    simp only [attached, ok_bind]
    obtain ⟨left, session, pushed⟩ | ⟨errno', session, pushed⟩ := push_cases peers errno m'
      { w with asked := w.asked ++ [frameOf m], mechanism := mechanism }
    · simp only [pushed]
      refine ⟨true, left, errno, _, rfl, .going step before (by simp [asked]) ?_⟩
      exact delivered.snoc decodes rfl rfl rfl arrives
    · simp only [pushed]
      by_cases again : errno' = .eagain
      · subst again
        refine ⟨false, m', .eagain, _, rfl, ?_⟩
        exact .pending rfl before (by simp [asked]) delivered.same decodes arrives
      · refine ⟨false, m', errno', _, rfl, ?_⟩
        simp only [Outcome.of, again, Bool.false_or, bne_iff_ne,
          ne_eq, not_false_eq_true, if_true]
        exact .broken before ⟨[frameOf m], by rw [asked]⟩ (by simp [asked])
          (.inl ⟨by simp [step], w.mechanism, delivered.same⟩)

theorem writeCredential_course (step : w.processMsg = .writeCredential)
    (before : w.before = hs.length) (asked : w.asked = []) (accepted : w.accepted = [])
    (origin : w.mechanism = w.origin) (bare : Bare m) (errno : Errno) :
    ∃ done m' e' w', writeCredential peers errno m w = .ok (done, m', e', w') ∧
      Course peers (hs ++ [frameOf m]) (.of done m' e') w' := by
  simp only [writeCredential]
  by_cases anonymous : peers.getUserId w.mechanism = []
  · rw [if_pos anonymous]
    have delivered : Delivered peers [] { w with processMsg := .decodeAndPush } w.mechanism := by
      rw [origin] at anonymous ⊢
      exact ⟨[], rfl, by simp [accepted, credential, anonymous]⟩
    exact decodeAndPush_course (w := { w with processMsg := .decodeAndPush }) rfl before asked
      delivered bare errno
  · rw [if_neg anonymous]
    obtain ⟨left, session, pushed⟩ | ⟨errno', session, pushed⟩ :=
      push_cases peers errno (credentialMsg (peers.getUserId w.mechanism)) w
    · simp only [pushed]
      have delivered : Delivered peers []
          { w with accepted := w.accepted ++ [credentialMsg (peers.getUserId w.mechanism)] }
          w.mechanism := by
        rw [origin] at anonymous ⊢
        exact ⟨[], rfl, by simp [accepted, credential, anonymous]⟩
      exact decodeAndPush_course (w := { w with
        processMsg := .decodeAndPush
        session := session
        accepted := w.accepted ++ [credentialMsg (peers.getUserId w.mechanism)] })
        rfl before asked delivered bare errno
    · simp only [pushed]
      refine ⟨false, m, errno', _, rfl, ?_⟩
      by_cases again : errno' = .eagain
      · simp only [again]
        exact .held step before asked accepted origin bare
      · simp only [Outcome.of, again]
        exact .broken_first (w := { w with session := session }) before asked accepted _

theorem handles : Handles (handle peers) (Course peers) where
  fresh := by
    intro frames w m course bare errno
    cases course with
    | handshaking step before asked accepted =>
      simp only [handle, step, processHandshakeCommand]
      cases peers.handshake w.mechanism (frameOf m) with
      | none =>
        refine ⟨false, m, .eproto, w, rfl, ?_⟩
        exact .broken_first before asked accepted _
      | some answer =>
        obtain ⟨done, mechanism⟩ := answer
        cases done with
        | true => exact ⟨true, m, errno, _, rfl, .begun rfl (by simp [ready, before]) asked accepted rfl⟩
        | false => exact ⟨true, m, errno, _, rfl, .handshaking rfl (by simp [before]) asked accepted⟩
    | begun step before asked accepted origin =>
      simp only [handle, step]
      exact writeCredential_course step before asked accepted origin bare errno
    | going step before asked delivered =>
      simp only [handle, step, List.append_assoc]
      exact decodeAndPush_course step before asked delivered bare errno
  retry := by
    intro frames w m course errno
    cases course with
    | held step before asked accepted origin bare =>
      simp only [handle, step]
      exact writeCredential_course step before asked accepted origin bare errno
    | pending step before asked delivered decodes arrives =>
      simp only [handle, step, pushOneThenDecodeAndPush]
      obtain ⟨left, session, pushed⟩ | ⟨errno', session, pushed⟩ :=
        push_cases peers errno m w
      · simp only [pushed]
        refine ⟨true, left, errno, _, rfl, .going rfl before asked ?_⟩
        exact delivered.snoc decodes rfl rfl rfl arrives
      · simp only [pushed]
        refine ⟨false, m, errno', _, rfl, ?_⟩
        by_cases again : errno' = .eagain
        · simp only [again]
          exact .pending step before asked delivered.same decodes arrives
        · simp only [Outcome.of, again]
          exact .broken before ⟨_, asked.symm⟩ (by simp [asked])
            (.inl ⟨by simp [step], _, delivered.same⟩)

theorem Course.elsewhere {outcome : Outcome} (changed : Elsewhere peers w w')
    (course : Course peers frames outcome w) : Course peers frames outcome w' := by
  cases changed with
  | session session =>
    cases course with
    | handshaking step before asked accepted => exact .handshaking step before asked accepted
    | begun step before asked accepted origin => exact .begun step before asked accepted origin
    | going step before asked delivered =>
      exact .going step before asked delivered.same
    | held step before asked accepted origin bare =>
      exact .held step before asked accepted origin bare
    | pending step before asked delivered decodes arrives =>
      exact .pending step before asked delivered.same decodes arrives
    | broken before least most delivered =>
      refine .broken before least most (delivered.imp_left ?_)
      rintro ⟨step, mechanism, delivered⟩
      exact ⟨step, mechanism, delivered.same⟩
  | handshaking mechanism session step =>
    cases course with
    | handshaking _ before asked accepted => exact .handshaking step before asked accepted
    | broken before least most delivered =>
      exact .broken before least most (.inr (delivered.resolve_left fun other => other.1 step))
    | begun step' | going step' | held step' | pending step' => simp [step] at step'
  | ready mechanism session step =>
    cases course with
    | handshaking _ before asked accepted => exact .begun rfl before asked accepted rfl
    | broken before least most delivered =>
      exact .broken before least most (.inr (delivered.resolve_left fun other => other.1 step))
    | begun step' | going step' | held step' | pending step' => simp [step] at step'

/-! ## Runs -/

/-- The session has got what the mechanism makes of the first `n` frames, those of the handshake
    left out, in order and each with the metadata, and the credential before them; and the mechanism
    was given each frame at most once, these among them. -/
structure Accounted (peers : Peers μ ω) (n : Nat) (frames : List Frame) (w : DataPhase μ ω) : Prop where
  decoded : (frames.take n).drop w.before <+: w.asked
  once : w.asked <+: frames.drop w.before
  delivered : (∃ mechanism, Delivered peers ((frames.take n).drop w.before) w mechanism) ∨
    (frames.take n).drop w.before = [] ∧ w.accepted = []

abbrev State (μ ω : Type) := Receiver V2Step V2Fields (DataPhase μ ω)

def start (bufSize : Nat) (limit : Option Nat) (zeroCopy : Bool) (errno : Errno) (mechanism : μ)
    (session : ω) : State μ ω :=
  Receiver.new (V2Decoder.new bufSize limit zeroCopy) [] errno (DataPhase.new mechanism session)

def event (peers : Peers μ ω) : State μ ω → ReceiverAction (DataPhase μ ω) → Except Fault (State μ ω) :=
  Receiver.step V2Decoder.action (handle peers)

def Possible (peers : Peers μ ω) : State μ ω → ReceiverAction (DataPhase μ ω) → Prop :=
  Allowed (Elsewhere peers)

theorem outspoken (limit : Option Nat) : Outspoken (v2Spec limit) := by
  intro g bytes e turn
  have sized {flags : UInt8} {size : Nat} (turn : v2Size limit flags size = .reject e) :
      ∃ errno, e = some errno ∧ errno ≠ .eagain := by
    rw [v2Size] at turn
    split at turn
    · cases turn
      exact ⟨.emsgsize, rfl, by simp⟩
    · cases turn
  cases g with
  | flags => cases turn
  | oneByteSize flags | eightByteSize flags => exact sized turn
  | body flags size => cases turn

end DataPhase

end Wire

end Zmq
