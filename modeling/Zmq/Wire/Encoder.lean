import Zmq.Pipe.Basic

/-! # Encoders

`encoder_base_t` with `v1_encoder_t`, `v2_encoder_t` and `v3_1_encoder_t`, and the loop of
`stream_engine_base_t::out_event` that drives an encoder. A pointer to what is to be written
and the number of bytes there are kept as those bytes.
-/

namespace Zmq

open Lib

def putUint64 (n : UInt64) : List UInt8 :=
  [.ofNat (n.toNat >>> 56), .ofNat (n.toNat >>> 48), .ofNat (n.toNat >>> 40),
    .ofNat (n.toNat >>> 32), .ofNat (n.toNat >>> 24), .ofNat (n.toNat >>> 16),
    .ofNat (n.toNat >>> 8), .ofNat n.toNat]

def getUint64 (bytes : List UInt8) : UInt64 :=
  .ofNat ((bytes.take 8).foldl (fun n b => n * 256 + b.toNat) 0)

@[simp] theorem getUint64_putUint64 (n : UInt64) (rest : List UInt8) :
    getUint64 (putUint64 n ++ rest) = n := by
  have bound := n.toNat_lt
  apply UInt64.toNat_inj.mp
  simp [getUint64, putUint64]
  omega

theorem getUint64_of_take {bytes s : List UInt8} (length : s.length = 8)
    (holds : bytes.take s.length = s) : getUint64 bytes = getUint64 s := by
  rw [length] at holds
  rw [getUint64, getUint64, holds, List.take_of_length_le (by omega)]

def subCmdName : List UInt8 := [9, 83, 85, 66, 83, 67, 82, 73, 66, 69]
def cancelCmdName : List UInt8 := [6, 67, 65, 78, 67, 69, 76]

namespace Wire

/-- What a class derived from `encoder_base_t` writes for a message: the bytes `message_ready`
    leaves in `_tmp_buf`, and what `size_ready` points at. -/
structure Framing where
  header : Msg → List UInt8
  body : Msg → List UInt8

def Framing.frame (f : Framing) (m : Msg) : List UInt8 := f.header m ++ f.body m

/-! ## The headers -/

/-- The legacy mark of a subscription or a cancellation, the byte in front of the topic. -/
def legacyMark (m : Msg) : List UInt8 :=
  if m.isSubscribe then [1] else if m.isCancel then [0] else []

theorem length_legacyMark (m : Msg) :
    (legacyMark m).length = if m.isSubscribe || m.isCancel then 1 else 0 := by
  unfold legacyMark
  cases m.isSubscribe <;> cases m.isCancel <;> rfl

theorem length_legacyMark_le (m : Msg) : (legacyMark m).length ≤ 1 := by
  rw [length_legacyMark]
  split <;> decide

def commandMark (m : Msg) : List UInt8 :=
  if m.isSubscribe then subCmdName else if m.isCancel then cancelCmdName else []

def messageReadyV1 (m : Msg) : List UInt8 :=
  let size := m.size + 1 + (legacyMark m).length
  (if size < 255 then [UInt8.ofNat size] else 255 :: putUint64 (.ofNat size)) ++
    [m.flags &&& MsgFlag.more] ++ legacyMark m

/-- `v2_protocol_t`. -/
def ProtocolFlag.more : UInt8 := 1
def ProtocolFlag.large : UInt8 := 2
def ProtocolFlag.command : UInt8 := 4

/-- The first byte of a frame. The size it goes by is that of the message alone. -/
def protocolFlags (isCommand : Bool) (m : Msg) : UInt8 :=
  (if m.more then ProtocolFlag.more else 0) |||
    (if 255 < m.size then ProtocolFlag.large else 0) |||
    (if isCommand then ProtocolFlag.command else 0)

def lengthField (size : Nat) : List UInt8 :=
  if 255 < size then putUint64 (.ofNat size) else [.ofNat size]

/-- `message_ready` of the encoders for ZMTP 2 and 3: a mark is counted in the length. -/
def messageReady (isCommand : Bool) (mark : List UInt8) (m : Msg) : List UInt8 :=
  protocolFlags isCommand m :: (lengthField (m.size + mark.length) ++ mark)

def v1Encoder : Framing where
  header := messageReadyV1
  body m := m.data

def v2Encoder : Framing where
  header m := messageReady m.command (legacyMark m) m
  body m := m.data

def v31Encoder : Framing where
  header m := messageReady (m.command || m.isSubscribe || m.isCancel) (commandMark m) m
  body m := m.data

/-! ## The state machine -/

inductive EncoderStep where
  | messageReady
  | sizeReady
  deriving Repr, DecidableEq

structure Encoder where
  /-- `_write_pos` and `_to_write`. -/
  toWrite : List UInt8
  next : EncoderStep
  newMsgFlag : Bool
  bufSize : Nat
  inProgress : Option Msg
  deriving Repr, DecidableEq

namespace Encoder

def new (bufSize : Nat) : Encoder where
  toWrite := []
  next := .messageReady
  newMsgFlag := true
  bufSize := bufSize
  inProgress := none

variable (f : Framing)

def runNext (m : Msg) (e : Encoder) : Encoder :=
  match e.next with
  | .messageReady => { e with toWrite := f.header m, next := .sizeReady, newMsgFlag := false }
  | .sizeReady => { e with toWrite := f.body m, next := .messageReady, newMsgFlag := true }

def loadMsg (m : Msg) (e : Encoder) : Except Fault Encoder :=
  match e.inProgress with
  | some _ => .error (.assertion .loadMsg)
  | none => .ok (runNext f m { e with inProgress := some m })

/-- The loop of `encode`, with what is in the buffer so far. It goes round three times at most:
    for the rest of the header, for the body, and to close the message. -/
def encodeLoop (supplied : Bool) (size : Nat) (m : Msg) :
    Nat → List UInt8 → Encoder → List UInt8 × Encoder
  | 0, out, e => (out, e)
  | n + 1, out, e =>
    if out.length < size then
      if e.toWrite = [] ∧ e.newMsgFlag then (out, { e with inProgress := none })
      else
        let e := if e.toWrite = [] then e.runNext f m else e
        -- Zero-copy: the caller gets the message itself, however much of it there is.
        if out = [] ∧ supplied = false ∧ size ≤ e.toWrite.length then
          (e.toWrite, { e with toWrite := [] })
        else
          encodeLoop supplied size m n (out ++ e.toWrite.take (size - out.length))
            { e with toWrite := e.toWrite.drop (size - out.length) }
    else (out, e)

/-- `encoder_base_t::encode`, into a buffer of the caller of that size or into the encoder's
    own. -/
def encode (buffer : Option Nat) (e : Encoder) : List UInt8 × Encoder :=
  match e.inProgress with
  | none => ([], e)
  | some m => encodeLoop f buffer.isSome (buffer.getD e.bufSize) m 3 [] e

end Encoder

/-! ## The output of an engine -/

/-- The part of `stream_engine_base_t` that `out_event` works on, with the messages
    `_next_msg` is going to give and the bytes that were written. -/
structure Output where
  encoder : Encoder
  outpos : Bool
  /-- The `_outsize` bytes at `_outpos`. -/
  out : List UInt8
  outputStopped : Bool
  queue : List Msg
  written : List UInt8
  deriving Repr, DecidableEq

namespace Output

def new (outBatchSize : Nat) : Output where
  encoder := .new outBatchSize
  outpos := false
  out := []
  outputStopped := false
  queue := []
  written := []

variable (f : Framing) (outBatchSize : Nat)

/-- The loop of `out_event` over the messages there are. -/
def loadBatch : List Msg → Output → Except Fault Output
  | [], s => .ok s
  | m :: rest, s =>
    if s.out.length < outBatchSize then do
      let encoder ← s.encoder.loadMsg f m
      let buffer := if s.outpos then some (outBatchSize - s.out.length) else none
      let (bytes, encoder) := encoder.encode f buffer
      if bytes = [] then .error (.assertion .encode)
      else loadBatch rest { s with
        encoder := encoder, outpos := true, out := s.out ++ bytes, queue := rest }
    else .ok s

/-- `write` and what follows it; -1 is `none`. -/
def write (nbytes : Option Nat) (s : Output) : Output :=
  match nbytes with
  | none => s
  | some n => { s with written := s.written ++ s.out.take n, out := s.out.drop n }

def outEvent (nbytes : Option Nat) (s : Output) : Except Fault Output :=
  if s.out = [] then do
    let (bytes, encoder) := s.encoder.encode f none
    let s ← loadBatch f outBatchSize s.queue { s with
      encoder := encoder, outpos := s.encoder.inProgress.isSome, out := bytes }
    .ok (if s.out = [] then { s with outputStopped := true } else s.write nbytes)
  else .ok (s.write nbytes)

end Output

/-- What happens to the output of an engine. -/
inductive OutputAction where
  | offer (m : Msg)
  | outEvent (nbytes : Option Nat)
  | restartOutput (nbytes : Option Nat)
  deriving Repr, DecidableEq

def OutputAction.message : OutputAction → Option Msg
  | .offer m => some m
  | .outEvent _ | .restartOutput _ => none

namespace Output

variable (f : Framing) (outBatchSize : Nat)

def step (s : Output) : OutputAction → Except Fault Output
  | .offer m => .ok { s with queue := s.queue ++ [m] }
  | .outEvent nbytes => s.outEvent f outBatchSize nbytes
  | .restartOutput nbytes => { s with outputStopped := false }.outEvent f outBatchSize nbytes

def run (actions : List OutputAction) : Except Fault Output :=
  actions.foldlM (step f outBatchSize) (new outBatchSize)

def offered (actions : List OutputAction) : List Msg := actions.filterMap OutputAction.message

@[simp] theorem offered_append (actions : List OutputAction) (action : OutputAction) :
    offered (actions ++ [action]) = offered actions ++ action.message.toList := by
  cases h : action.message <;> simp [offered, h]

def Drained (s : Output) : Prop :=
  s.queue = [] ∧ s.out = [] ∧ s.encoder.inProgress = none
  deriving Decidable

end Output

/-! ## What is written are the frames -/

namespace Encoder

variable {f : Framing} {e e' : Encoder} {m : Msg} {out bytes : List UInt8}

def rest (f : Framing) (e : Encoder) : List UInt8 :=
  match e.inProgress, e.next with
  | some m, .sizeReady => e.toWrite ++ f.body m
  | _, _ => e.toWrite

structure Sound (e : Encoder) : Prop where
  idle : e.inProgress = none → e.toWrite = [] ∧ e.next = .messageReady
  step : e.newMsgFlag = true ↔ e.next = .messageReady

def rounds (e : Encoder) : Nat :=
  (if e.newMsgFlag then 0 else 1) + (if e.toWrite = [] then 0 else 1) + 1

/-- A call of `encode` with room for `size` bytes moves bytes from what is to be written to what
    it returns. If there is room left then the message is done. -/
structure Encodes (f : Framing) (size : Nat) (out : List UInt8) (e : Encoder) (bytes : List UInt8)
    (e' : Encoder) : Prop where
  sound : e'.Sound
  moved : out ++ e.rest f = bytes ++ e'.rest f
  done : bytes.length < size → e'.inProgress = none
  grows : out.length ≤ bytes.length
  some_of : 0 < size → out ≠ [] ∨ e.toWrite ≠ [] → bytes ≠ []
  bufSize : e'.bufSize = e.bufSize

theorem new_sound (bufSize : Nat) : (new bufSize).Sound where
  idle _ := ⟨rfl, rfl⟩
  step := by simp [new]

theorem encodeLoop_full {supplied : Bool} {size : Nat} (n : Nat) (full : size ≤ out.length) :
    encodeLoop f supplied size m n out e = (out, e) := by
  cases n with
  | zero => rfl
  | succ n => rw [encodeLoop, if_neg (by omega)]

theorem runNext_of_written (sound : e.Sound) (loaded : e.inProgress = some m)
    (written : e.toWrite = []) (unfinished : ¬ e.newMsgFlag = true) :
    e.runNext f m = { e with toWrite := f.body m, next := .messageReady, newMsgFlag := true } ∧
      e.rest f = f.body m := by
  have next : e.next = .sizeReady := by
    cases step : e.next with
    | messageReady => exact absurd (sound.step.mpr step) unfinished
    | sizeReady => rfl
  exact ⟨by rw [runNext, next], by simp [rest, loaded, next, written]⟩

theorem rest_of_written (e : Encoder) (n : Nat) :
    e.rest f = e.toWrite.take n ++ { e with toWrite := e.toWrite.drop n }.rest f := by
  simp only [rest]
  split
  · rw [← List.append_assoc, List.take_append_drop]
  · rw [List.take_append_drop]

theorem Sound.written (sound : e.Sound) (loaded : e.inProgress = some m) (bytes : List UInt8) :
    { e with toWrite := bytes }.Sound where
  idle none := by simp [loaded] at none
  step := sound.step

/-- Run the state machine if there is nothing to write. What there is to write on the whole stays
    the same, and one round less is left once it is written. -/
theorem Sound.turn {n : Nat} {e₁ : Encoder} (sound : e.Sound) (loaded : e.inProgress = some m)
    (unfinished : ¬ (e.toWrite = [] ∧ e.newMsgFlag = true)) (enough : e.rounds ≤ n + 1)
    (current : (if e.toWrite = [] then e.runNext f m else e) = e₁) :
    e₁.Sound ∧ e₁.inProgress = some m ∧ e.rest f = e₁.rest f ∧ e₁.bufSize = e.bufSize ∧
      { e₁ with toWrite := [] }.rounds ≤ n := by
  by_cases written : e.toWrite = []
  · have unflagged : e.newMsgFlag = false := by
      simpa using fun flag => unfinished ⟨written, flag⟩
    obtain ⟨ran, left⟩ := runNext_of_written (f := f) sound loaded written (by simp [unflagged])
    rw [if_pos written, ran] at current
    subst current
    refine ⟨⟨fun none => by simp [loaded] at none, by simp⟩, loaded, ?_, rfl, ?_⟩
    · rw [left]
      simp [rest]
    · simp only [rounds, unflagged, if_true, Bool.false_eq_true, if_false] at enough ⊢
      omega
  · rw [if_neg written] at current
    subst current
    refine ⟨sound, loaded, rfl, rfl, ?_⟩
    simp only [rounds, written, if_false, if_true] at enough ⊢
    omega

namespace Encodes

variable {size : Nat} {e₁ : Encoder}

theorem full (sound : e.Sound) (filled : size ≤ out.length) : Encodes f size out e out e where
  sound := sound
  moved := rfl
  done short := absurd filled (Nat.not_le.mpr short)
  grows := Nat.le_refl _
  some_of positive _ none := by
    rw [none] at filled
    exact absurd filled (Nat.not_le.mpr positive)
  bufSize := rfl

theorem finished (sound : e.Sound) (written : e.toWrite = []) (flag : e.newMsgFlag = true) :
    Encodes f size out e out { e with inProgress := none } where
  sound := ⟨fun _ => ⟨written, sound.step.mp flag⟩, sound.step⟩
  moved := by simp [rest, sound.step.mp flag]
  done _ := rfl
  grows := Nat.le_refl _
  some_of _ some := some.resolve_right fun h => h written
  bufSize := rfl

theorem zeroCopied (sound : e₁.Sound) (loaded : e₁.inProgress = some m)
    (same : e.rest f = e₁.rest f) (size₁ : e₁.bufSize = e.bufSize)
    (large : size ≤ e₁.toWrite.length) :
    Encodes f size [] e e₁.toWrite { e₁ with toWrite := [] } where
  sound := sound.written loaded []
  moved := by
    rw [same, e₁.rest_of_written e₁.toWrite.length]
    simp
  done short := absurd large (Nat.not_le.mpr short)
  grows := Nat.zero_le _
  some_of positive _ none := by
    rw [none] at large
    exact absurd large (Nat.not_le.mpr positive)
  bufSize := size₁

theorem copied (room : out.length < size)
    (current : (if e.toWrite = [] then e.runNext f m else e) = e₁) (same : e.rest f = e₁.rest f)
    (size₁ : e₁.bufSize = e.bufSize)
    (step : Encodes f size (out ++ e₁.toWrite.take (size - out.length))
      { e₁ with toWrite := e₁.toWrite.drop (size - out.length) } bytes e') :
    Encodes f size out e bytes e' where
  sound := step.sound
  moved := by rw [← step.moved, List.append_assoc, ← rest_of_written, same]
  done := step.done
  grows := Nat.le_trans (by simp) step.grows
  some_of positive some := by
    apply step.some_of positive
    refine .inl fun none => ?_
    obtain ⟨empty, nothing⟩ := List.append_eq_nil_iff.mp none
    have written : e₁.toWrite = [] :=
      (List.take_eq_nil_iff.mp nothing).resolve_left (by omega)
    have some : e.toWrite ≠ [] := some.resolve_left fun h => h empty
    rw [if_neg some] at current
    exact some (current ▸ written)
  bufSize := step.bufSize.trans size₁

end Encodes

theorem encodeLoop_encodes (supplied : Bool) (size n : Nat) (sound : e.Sound)
    (loaded : e.inProgress = some m) (enough : e.rounds ≤ n) :
    Encodes f size out e (encodeLoop f supplied size m n out e).1
      (encodeLoop f supplied size m n out e).2 := by
  induction n generalizing out e with
  | zero => simp [rounds] at enough
  | succ n ih =>
    by_cases room : out.length < size
    · rw [encodeLoop, if_pos room]
      by_cases finished : e.toWrite = [] ∧ e.newMsgFlag = true
      · rw [if_pos finished]
        exact .finished sound finished.1 finished.2
      · rw [if_neg finished]
        generalize current : (if e.toWrite = [] then e.runNext f m else e) = e₁
        obtain ⟨sound₁, loaded₁, same, size₁, fewer⟩ :=
          sound.turn loaded finished enough current
        by_cases zeroCopy : out = [] ∧ supplied = false ∧ size ≤ e₁.toWrite.length
        · obtain ⟨rfl, -, large⟩ := id zeroCopy
          rw [if_pos zeroCopy]
          exact .zeroCopied sound₁ loaded₁ same size₁ large
        · rw [if_neg zeroCopy]
          apply Encodes.copied room current same size₁
          have sound₂ := sound₁.written loaded₁ (e₁.toWrite.drop (size - out.length))
          by_cases fills : size - out.length ≤ e₁.toWrite.length
          · -- The buffer is full: the loop ends, whatever is left to write.
            have filled : size ≤ (out ++ e₁.toWrite.take (size - out.length)).length := by
              simp only [List.length_append, List.length_take]
              omega
            rw [encodeLoop_full n filled]
            exact .full sound₂ filled
          · have all : e₁.toWrite.drop (size - out.length) = [] :=
              List.drop_eq_nil_of_le (by omega)
            exact ih sound₂ loaded₁ (by rw [all]; exact fewer)
    · rw [encodeLoop_full _ (by omega)]
      exact .full sound (by omega)

theorem encode_encodes (buffer : Option Nat) (sound : e.Sound) :
    Encodes f (buffer.getD e.bufSize) [] e (e.encode f buffer).1 (e.encode f buffer).2 := by
  rw [encode]
  split
  · rename_i idle
    exact {
      sound := sound
      moved := rfl
      done := fun _ => idle
      grows := Nat.le_refl _
      some_of := fun _ some => some.resolve_right fun h => h (sound.idle idle).1
      bufSize := rfl }
  · rename_i m loaded
    apply encodeLoop_encodes buffer.isSome _ 3 sound loaded
    simp only [rounds]
    split <;> split <;> omega

theorem loadMsg_ok (sound : e.Sound) (idle : e.inProgress = none) :
    ∃ e', e.loadMsg f m = .ok e' ∧ e'.Sound ∧ e'.rest f = f.frame m ∧ e'.toWrite = f.header m ∧
      e'.bufSize = e.bufSize := by
  have next := (sound.idle idle).2
  refine ⟨{ e with
    toWrite := f.header m, next := .sizeReady, newMsgFlag := false, inProgress := some m },
    by simp [loadMsg, idle, runNext, next], ⟨fun none => by simp at none, by simp⟩, rfl, rfl, rfl⟩

end Encoder

namespace Output

variable {f : Framing} {outBatchSize : Nat} {s : Output} {msgs : List Msg}

/-- What was written and what is still to be written of the messages that were taken are their
    frames; the rest waits in the queue. -/
structure Sends (f : Framing) (outBatchSize : Nat) (msgs : List Msg) (s : Output) : Prop where
  sound : s.encoder.Sound
  bufSize : s.encoder.bufSize = outBatchSize
  frames : ∃ taken, msgs = taken ++ s.queue ∧
    s.written ++ s.out ++ s.encoder.rest f = taken.flatMap f.frame

theorem new_sends (f : Framing) : Sends f outBatchSize [] (new outBatchSize) where
  sound := Encoder.new_sound outBatchSize
  bufSize := rfl
  frames := ⟨[], rfl, rfl⟩

theorem loadBatch_sends (framed : ∀ m, f.header m ≠ []) (sends : Sends f outBatchSize msgs s)
    (idle : s.out.length < outBatchSize → s.encoder.inProgress = none)
    (placed : s.out ≠ [] → s.outpos = true) :
    ∃ s', loadBatch f outBatchSize s.queue s = .ok s' ∧ Sends f outBatchSize msgs s' := by
  generalize queued : s.queue = queue
  induction queue generalizing s with
  | nil => exact ⟨s, rfl, sends⟩
  | cons m rest ih =>
    rw [loadBatch]
    split
    · rename_i room
      obtain ⟨e, loaded, sound, frame, header, size⟩ :=
        Encoder.loadMsg_ok (f := f) (m := m) sends.sound (idle room)
      rw [loaded, ok_bind]
      generalize chosen : (if s.outpos then some (outBatchSize - s.out.length) else none) = buffer
      have step := Encoder.encode_encodes (f := f) buffer sound
      have sized : buffer.getD e.bufSize = outBatchSize - s.out.length := by
        subst chosen
        cases at_ : s.outpos with
        | true => rfl
        | false =>
          have : s.out = [] := by simpa [at_] using mt placed
          simp [this, size, sends.bufSize]
      have some := step.some_of (by omega) (.inr (header ▸ framed m))
      simp only [some]
      obtain ⟨taken, all, frames⟩ := sends.frames
      have before : s.encoder.rest f = [] := by
        simp [Encoder.rest, idle room, (sends.sound.idle (idle room)).1]
      apply ih
      · exact {
          sound := step.sound
          bufSize := step.bufSize.trans (size.trans sends.bufSize)
          frames := by
            refine ⟨taken ++ [m], by simp [all, queued], ?_⟩
            have moved := step.moved
            rw [List.nil_append, frame] at moved
            rw [before, List.append_nil] at frames
            simp [← frames, moved] }
      · intro short
        apply step.done
        simp only [List.length_append] at short
        omega
      · exact fun _ => rfl
      · rfl
    · exact ⟨s, rfl, sends⟩

theorem write_sends (sends : Sends f outBatchSize msgs s) (nbytes : Option Nat) :
    Sends f outBatchSize msgs (s.write nbytes) := by
  cases nbytes with
  | none => exact sends
  | some n =>
    obtain ⟨taken, all, frames⟩ := sends.frames
    refine ⟨sends.sound, sends.bufSize, taken, all, ?_⟩
    rw [← frames]
    simp only [write]
    rw [List.append_assoc s.written, List.take_append_drop]

theorem outEvent_sends (framed : ∀ m, f.header m ≠ []) (sends : Sends f outBatchSize msgs s)
    (nbytes : Option Nat) :
    ∃ s', s.outEvent f outBatchSize nbytes = .ok s' ∧ Sends f outBatchSize msgs s' := by
  rw [outEvent]
  split
  · rename_i empty
    have step := Encoder.encode_encodes (f := f) none sends.sound
    rw [Option.getD_none, sends.bufSize] at step
    obtain ⟨s', loaded, sends'⟩ := loadBatch_sends (s := { s with
        encoder := (s.encoder.encode f none).2
        outpos := s.encoder.inProgress.isSome
        out := (s.encoder.encode f none).1 }) framed
      { sound := step.sound
        bufSize := step.bufSize.trans sends.bufSize
        frames := by
          obtain ⟨taken, all, frames⟩ := sends.frames
          refine ⟨taken, all, ?_⟩
          rw [← frames, empty, List.append_nil, List.append_assoc, ← step.moved, List.nil_append] }
      step.done
      (by
        intro some
        cases loaded : s.encoder.inProgress with
        | none => simp [Encoder.encode, loaded] at some
        | some m => rfl)
    simp only [loaded, ok_bind]
    split
    · exact ⟨_, rfl, ⟨sends'.sound, sends'.bufSize, sends'.frames⟩⟩
    · exact ⟨_, rfl, write_sends sends' nbytes⟩
  · exact ⟨_, rfl, write_sends sends nbytes⟩

theorem run_sends (framed : ∀ m, f.header m ≠ []) (outBatchSize : Nat)
    (actions : List OutputAction) :
    ∃ s, run f outBatchSize actions = .ok s ∧ Sends f outBatchSize (offered actions) s := by
  induction actions using List.reverseRecOn with
  | nil => exact ⟨_, rfl, new_sends f⟩
  | append_singleton actions action ih =>
    obtain ⟨s, ran, sends⟩ := ih
    rw [run] at ran ⊢
    rw [List.foldlM_append, ran, ok_bind]
    simp only [offered_append]
    cases action with
    | offer m =>
      obtain ⟨taken, all, frames⟩ := sends.frames
      refine ⟨_, rfl, sends.sound, sends.bufSize, taken, ?_, frames⟩
      rw [← List.append_assoc, ← all]
      rfl
    | outEvent nbytes =>
      obtain ⟨s', ran, sends⟩ := outEvent_sends framed sends nbytes
      exact ⟨s', by simp [step, ran], by simpa [OutputAction.message] using sends⟩
    | restartOutput nbytes =>
      obtain ⟨s', ran, sends⟩ := outEvent_sends (s := { s with outputStopped := false })
        framed { sends with } nbytes
      exact ⟨s', by simp [step, ran], by simpa [OutputAction.message] using sends⟩

theorem Sends.drained (sends : Sends f outBatchSize msgs s) (drained : s.Drained) :
    s.written = msgs.flatMap f.frame := by
  obtain ⟨queue, out, idle⟩ := drained
  obtain ⟨taken, all, frames⟩ := sends.frames
  have rest : s.encoder.rest f = [] := by
    simp [Encoder.rest, idle, (sends.sound.idle idle).1]
  rw [queue, List.append_nil] at all
  rw [all, ← frames, out, rest, List.append_nil, List.append_nil]

end Output

end Wire

end Zmq
