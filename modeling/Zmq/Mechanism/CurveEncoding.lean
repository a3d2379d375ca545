import Zmq.Lib.Box
import Zmq.Mechanism.Basic
import Zmq.Wire.Encoder

/-! # CURVE messages

`curve_encoding_t`. Each message goes into a box with a nonce that counts up; the receiver
takes nonces that are larger than the last one only. `easy` says which interface of the
library is used, ZMQ_HAVE_CRYPTO_BOX_EASY_FNS.
-/

namespace Zmq

open Lib

def messageCommand : List UInt8 := [7, 77, 69, 83, 83, 65, 71, 69]

/-- `"CurveZMQMESSAGEC"` and `"CurveZMQMESSAGES"`. -/
def clientNonces : List UInt8 := [67, 117, 114, 118, 101, 90, 77, 81, 77, 69, 83, 83, 65, 71, 69, 67]
def serverNonces : List UInt8 := [67, 117, 114, 118, 101, 90, 77, 81, 77, 69, 83, 83, 65, 71, 69, 83]

def flagMask : UInt8 := MsgFlag.more ||| MsgFlag.command

/-- The protocol errors of `curve_encoding_t::decode`. -/
inductive CurveError where
  | unexpectedCommand
  | malformedCommandMessage
  | invalidSequence
  | cryptographic
  deriving Repr, DecidableEq

/-- `curve_encoding_t`. What `_cn_precom` holds at first is not defined. -/
structure CurveEncoding where
  encodeNoncePrefix : List UInt8
  decodeNoncePrefix : List UInt8
  cnNonce : UInt64 := 1
  cnPeerNonce : UInt64 := 1
  cnPrecom : List UInt8
  downgradeSub : Bool

namespace CurveEncoding

/-- What stands before the topic of a subscription or a cancellation. -/
def subCancel (downgrade : Bool) (m : Msg) : List UInt8 :=
  if m.isSubscribe || m.isCancel then
    if downgrade then [if m.isSubscribe then 1 else 0]
    else if m.isCancel then cancelCmdName else subCmdName
  else []

/-- The subscriptions and cancellations that are sent as commands. -/
def asCommand (downgrade : Bool) (m : Msg) : Bool :=
  !downgrade && (m.isSubscribe || m.isCancel)

def plaintext (downgrade : Bool) (m : Msg) : List UInt8 :=
  let flags := m.flags &&& flagMask
  (if asCommand downgrade m then flags ||| MsgFlag.command else flags) ::
    (subCancel downgrade m ++ m.data)

def getAndIncNonce (e : CurveEncoding) : UInt64 × CurveEncoding :=
  (e.cnNonce, { e with cnNonce := e.cnNonce + 1 })

def encode (box : Box) (easy : Bool) (e : CurveEncoding) (m : Msg) : Msg × CurveEncoding :=
  let (n, e) := e.getAndIncNonce
  let nonce := e.encodeNoncePrefix.take 16 ++ putUint64 n
  let plain := plaintext e.downgradeSub m
  let cipher :=
    if easy then box.sealed e.cnPrecom nonce plain
    else (box.afternm e.cnPrecom nonce (Box.zeros 32 ++ plain)).drop 16
  (.initSize (messageCommand ++ putUint64 n ++ cipher), e)

def nonceOf (m : Msg) : UInt64 := getUint64 (m.data.drop 8)

def checkValidity (e : CurveEncoding) (m : Msg) : Except CurveError CurveEncoding :=
  if !m.startsWith messageCommand then .error .unexpectedCommand
  else if m.size < 33 then .error .malformedCommandMessage
  else if nonceOf m ≤ e.cnPeerNonce then .error .invalidSequence
  else .ok { e with cnPeerNonce := nonceOf m }

/-- `curve_encoding_t::decode`. The nonce counts even if the box does not open. -/
def decode (box : Box) (easy : Bool) (e : CurveEncoding) (m : Msg) :
    Except CurveError Msg × CurveEncoding :=
  match e.checkValidity m with
  | .error error => (.error error, e)
  | .ok e =>
    let nonce := e.decodeNoncePrefix.take 16 ++ (m.data.drop 8).take 8
    let cipher := m.data.drop 16
    let opened :=
      if easy then box.opened e.cnPrecom nonce cipher
      else (box.openAfternm e.cnPrecom nonce (Box.zeros 16 ++ cipher)).map (·.drop 32)
    match opened with
    | none => (.error .cryptographic, e)
    | some plain =>
      let flags := plain.headD 0 &&& flagMask
      let body := plain.drop 1
      -- the message is shrunk in place, or made anew
      (.ok (if easy then { m with flags := m.flags ||| flags, data := body }
        else { Msg.initSize body with flags := flags }), e)

def encodeAll (box : Box) (easy : Bool) (e : CurveEncoding) :
    List Msg → List Msg × CurveEncoding
  | [] => ([], e)
  | m :: rest =>
    let (first, e) := e.encode box easy m
    let (others, e) := e.encodeAll box easy rest
    (first :: others, e)

def decodeAll (box : Box) (easy : Bool) (e : CurveEncoding) :
    List Msg → List (Except CurveError Msg) × CurveEncoding
  | [] => ([], e)
  | m :: rest =>
    let (first, e) := e.decode box easy m
    let (others, e) := e.decodeAll box easy rest
    (first :: others, e)

/-! ## The round trip -/

variable {box : Box} {easy easy' : Bool} {e d sender receiver : CurveEncoding} {m x : Msg}

structure Carries (downgrade : Bool) (m : Msg) (result : Except CurveError Msg) : Prop where
  carried : ∃ r, result = .ok r ∧ r.data = subCancel downgrade m ++ m.data ∧
    r.more = m.more ∧ r.command = (m.command || asCommand downgrade m)

/-- The two ends agree, and the receiver has not seen the next nonce. -/
structure Agrees (sender receiver : CurveEncoding) : Prop where
  precom : receiver.cnPrecom = sender.cnPrecom
  nonces : receiver.decodeNoncePrefix.take 16 = sender.encodeNoncePrefix.take 16
  fresh : receiver.cnPeerNonce < sender.cnNonce

theorem plaintext_flags (downgrade : Bool) (m : Msg) :
    let flags := (plaintext downgrade m).headD 0 &&& flagMask
    (flags &&& MsgFlag.more != 0) = m.more ∧
      (flags &&& MsgFlag.command != 0) = (m.command || asCommand downgrade m) := by
  have more (f : UInt8) : f &&& flagMask &&& MsgFlag.more = f &&& MsgFlag.more := by
    rw [UInt8.and_assoc]
    rfl
  have command (f : UInt8) : f &&& flagMask &&& MsgFlag.command = f &&& MsgFlag.command := by
    rw [UInt8.and_assoc]
    rfl
  simp only [plaintext, command]
  cases asCommand downgrade m with
  | false => simp [Msg.more, Msg.command, more, command]
  | true =>
    have apart : MsgFlag.command &&& MsgFlag.more = 0 := rfl
    have set : MsgFlag.command ≠ 0 := by decide
    simp [or_and_self, or_and_of_apart _ apart, more, Msg.more, set]

theorem encode_fst : (e.encode box easy m).1 =
    .initSize (messageCommand ++ putUint64 e.cnNonce ++
      box.sealed e.cnPrecom (e.encodeNoncePrefix.take 16 ++ putUint64 e.cnNonce)
        (plaintext e.downgradeSub m)) := by
  cases easy <;> simp [encode, getAndIncNonce, Box.afternm_zeros]

theorem cnNonce_encode (box : Box) (easy : Bool) (m : Msg) (room : e.cnNonce.toNat + 1 < 2 ^ 64) :
    (e.encode box easy m).2.cnNonce.toNat = e.cnNonce.toNat + 1 := by
  rw [encode, getAndIncNonce, UInt64.toNat_add, UInt64.toNat_one, Nat.mod_eq_of_lt room]

theorem nonceOf_encode : nonceOf (e.encode box easy m).1 = e.cnNonce := by
  exact getUint64_putUint64 ..

theorem checkValidity_encode : d.checkValidity (e.encode box easy m).1 =
    if e.cnNonce ≤ d.cnPeerNonce then .error .invalidSequence
    else .ok { d with cnPeerNonce := e.cnNonce } := by
  have named : (e.encode box easy m).1.startsWith messageCommand = true := by
    rfl
  have long : ¬ (e.encode box easy m).1.size < 33 := by
    rw [encode_fst]
    simp [Msg.size, Msg.initSize, box.sealed_length, messageCommand, putUint64, plaintext]
  simp [checkValidity, named, long, nonceOf_encode]

theorem checkValidity_congr (same : x.data = m.data) : e.checkValidity x = e.checkValidity m := by
  obtain ⟨⟩ := x
  subst same
  rfl

theorem decode_eq {e' : CurveEncoding} (valid : e.checkValidity m = .ok e') :
    e.decode box easy m =
      match box.opened e'.cnPrecom (e'.decodeNoncePrefix.take 16 ++ (m.data.drop 8).take 8)
        (m.data.drop 16) with
      | none => (.error .cryptographic, e')
      | some plain => (.ok (if easy then
            { m with flags := m.flags ||| (plain.headD 0 &&& flagMask), data := plain.drop 1 }
          else { Msg.initSize (plain.drop 1) with flags := plain.headD 0 &&& flagMask }), e') := by
  cases easy <;> simp [decode, valid, Box.openAfternm_zeros]

theorem decode_encode (box : Box) (easy easy' : Bool) (m : Msg) (agrees : Agrees sender receiver) :
    Carries sender.downgradeSub m (receiver.decode box easy' (sender.encode box easy m).1).1 ∧
      (receiver.decode box easy' (sender.encode box easy m).1).2 =
        { receiver with cnPeerNonce := sender.cnNonce } := by
  have valid : receiver.checkValidity (sender.encode box easy m).1 =
      .ok { receiver with cnPeerNonce := sender.cnNonce } := by
    rw [checkValidity_encode, if_neg (UInt64.not_le.mpr agrees.fresh)]
  have nonce : ((sender.encode box easy m).1.data.drop 8).take 8 = putUint64 sender.cnNonce := by
    rfl
  have cipher : (sender.encode box easy m).1.data.drop 16 =
      box.sealed sender.cnPrecom (sender.encodeNoncePrefix.take 16 ++ putUint64 sender.cnNonce)
        (plaintext sender.downgradeSub m) := by
    rw [encode_fst]
    rfl
  have plain : (sender.encode box easy m).1.flags = 0 := by
    rfl
  rw [decode_eq valid, nonce, cipher, agrees.precom, agrees.nonces, Box.opened_sealed]
  obtain ⟨more, command⟩ := plaintext_flags sender.downgradeSub m
  cases easy' with
  | false => exact ⟨⟨_, rfl, rfl, more, command⟩, rfl⟩
  | true =>
    refine ⟨⟨_, rfl, rfl, ?_, ?_⟩, rfl⟩
    · simpa [Msg.more, plain] using more
    · simpa [Msg.command, plain] using command

theorem decode_frame (box : Box) (easy easy' : Bool) (m : Msg) (agrees : Agrees sender receiver)
    (flags : x.flags = 0) (data : x.data = (sender.encode box easy m).1.data) :
    ∃ y, receiver.decode box easy' x = (.ok y, { receiver with cnPeerNonce := sender.cnNonce }) ∧
      y.flags = (plaintext sender.downgradeSub m).headD 0 &&& flagMask ∧
      y.data = subCancel sender.downgradeSub m ++ m.data := by
  have valid : receiver.checkValidity x = .ok { receiver with cnPeerNonce := sender.cnNonce } := by
    rw [checkValidity_congr data, checkValidity_encode, if_neg (UInt64.not_le.mpr agrees.fresh)]
  have nonce : (x.data.drop 8).take 8 = putUint64 sender.cnNonce := by
    rw [data, encode_fst]
    rfl
  have cipher : x.data.drop 16 =
      box.sealed sender.cnPrecom (sender.encodeNoncePrefix.take 16 ++ putUint64 sender.cnNonce)
        (plaintext sender.downgradeSub m) := by
    rw [data, encode_fst]
    rfl
  rw [decode_eq valid, nonce, cipher, agrees.precom, agrees.nonces, Box.opened_sealed]
  cases easy' with
  | false => exact ⟨_, rfl, rfl, rfl⟩
  | true =>
    refine ⟨_, rfl, ?_, rfl⟩
    rw [if_pos rfl, flags, UInt8.zero_or]

theorem Agrees.next (box : Box) (easy : Bool) (m : Msg) (agrees : Agrees sender receiver)
    (room : sender.cnNonce.toNat + 1 < 2 ^ 64) :
    Agrees (sender.encode box easy m).2 { receiver with cnPeerNonce := sender.cnNonce } where
  precom := agrees.precom
  nonces := agrees.nonces
  fresh := by
    rw [UInt64.lt_iff_toNat_lt, cnNonce_encode box easy m room]
    exact Nat.lt_succ_self _

theorem decodeAll_encodeAll (ms : List Msg) (agrees : Agrees sender receiver)
    (room : sender.cnNonce.toNat + ms.length ≤ 2 ^ 64) :
    List.Forall₂ (Carries sender.downgradeSub) ms
      (receiver.decodeAll box easy' (sender.encodeAll box easy ms).1).1 := by
  induction ms generalizing sender receiver with
  | nil => exact .nil
  | cons m rest ih =>
    obtain ⟨carries, after⟩ := decode_encode box easy easy' m agrees
    simp only [encodeAll, decodeAll, after]
    refine .cons carries ?_
    cases rest with
    | nil => exact .nil
    | cons m' rest =>
      simp only [List.length_cons] at room
      have next := agrees.next box easy m (by omega)
      apply ih next
      rw [cnNonce_encode box easy m (by omega), List.length_cons]
      omega

/-! ## Replays -/

theorem checkValidity_ok (valid : e.checkValidity m = .ok d) :
    d = { e with cnPeerNonce := nonceOf m } ∧ e.cnPeerNonce < nonceOf m := by
  unfold checkValidity at valid
  split at valid
  · cases valid
  · split at valid
    · cases valid
    · split at valid
      · cases valid
      · rename_i later
        cases valid
        exact ⟨rfl, UInt64.not_le.mp later⟩

theorem decode_snd_of_ok (valid : e.checkValidity m = .ok d) : (e.decode box easy m).2 = d := by
  rw [decode_eq valid]
  split <;> rfl

theorem cnPeerNonce_decode (valid : e.checkValidity m = .ok d) :
    (e.decode box easy m).2.cnPeerNonce = nonceOf m := by
  rw [decode_snd_of_ok valid, (checkValidity_ok valid).1]

theorem decode_snd (box : Box) (easy : Bool) (e : CurveEncoding) (m : Msg) :
    (e.decode box easy m).2 = e ∨
    (e.cnPeerNonce < nonceOf m ∧
      (e.decode box easy m).2 = { e with cnPeerNonce := nonceOf m }) := by
  cases valid : e.checkValidity m with
  | error error => simp [decode, valid]
  | ok d =>
    obtain ⟨next, later⟩ := checkValidity_ok valid
    exact .inr ⟨later, (decode_snd_of_ok valid).trans next⟩

theorem cnPeerNonce_le_decodeAll (box : Box) (easy : Bool) (e : CurveEncoding) (ms : List Msg) :
    e.cnPeerNonce ≤ (e.decodeAll box easy ms).2.cnPeerNonce := by
  induction ms generalizing e with
  | nil => exact UInt64.le_refl _
  | cons m rest ih =>
    apply UInt64.le_trans _ (ih (e.decode box easy m).2)
    rcases decode_snd box easy e m with same | ⟨later, next⟩
    · rw [same]
      exact UInt64.le_refl _
    · rw [next]
      exact UInt64.le_of_lt later

def Refuses (box : Box) (easy : Bool) (e : CurveEncoding) (m : Msg) : Prop :=
  ∃ error, (e.decode box easy m).1 = .error error

theorem refuses_of_checkValidity {error : CurveError} (fails : e.checkValidity m = .error error) :
    e.Refuses box easy m :=
  ⟨error, by simp [decode, fails]⟩

theorem refuses_of_le (old : nonceOf m ≤ e.cnPeerNonce) : e.Refuses box easy m := by
  cases valid : e.checkValidity m with
  | error error => exact refuses_of_checkValidity valid
  | ok d => exact absurd (checkValidity_ok valid).2 (UInt64.not_lt.mpr old)

theorem checkValidity_error {error : CurveError} (fails : e.checkValidity m = .error error) :
    nonceOf m ≤ e.cnPeerNonce ∨ ∀ d : CurveEncoding, d.checkValidity m = .error error := by
  by_cases named : m.startsWith messageCommand = true
  · by_cases short : m.size < 33
    · refine .inr fun d => ?_
      simpa [checkValidity, short] using fails
    · refine .inl ?_
      simp only [checkValidity, named, short] at fails
      by_contra later
      simp [later] at fails
  · refine .inr fun d => ?_
    simpa [checkValidity, named] using fails

/-- Whatever a receiver did with a message, it refuses to take it afterwards. -/
theorem refuses_twice (box : Box) (easy : Bool) (e : CurveEncoding) (m : Msg) (between : List Msg) :
    ((e.decode box easy m).2.decodeAll box easy between).2.Refuses box easy m := by
  have onward := cnPeerNonce_le_decodeAll box easy (e.decode box easy m).2 between
  cases valid : e.checkValidity m with
  | error error =>
    rcases checkValidity_error valid with old | always
    · apply refuses_of_le
      have same : (e.decode box easy m).2 = e := by simp [decode, valid]
      rw [same] at onward ⊢
      exact UInt64.le_trans old onward
    · exact refuses_of_checkValidity (always _)
  | ok d =>
    apply refuses_of_le
    rwa [cnPeerNonce_decode valid] at onward

theorem encodeAll_length {ms : List Msg} : (e.encodeAll box easy ms).1.length = ms.length := by
  induction ms generalizing e with
  | nil => rfl
  | cons m rest ih => simp [encodeAll, ih]

theorem nonceOf_encodeAll (ms : List Msg) (room : sender.cnNonce.toNat + ms.length ≤ 2 ^ 64)
    {i : Nat} {a : Msg} (at_i : (sender.encodeAll box easy ms).1[i]? = some a) :
    (nonceOf a).toNat = sender.cnNonce.toNat + i := by
  induction ms generalizing sender i with
  | nil => simp [encodeAll] at at_i
  | cons m rest ih =>
    simp only [encodeAll, List.length_cons] at at_i room
    cases i with
    | zero =>
      simp only [List.getElem?_cons_zero, Option.some.injEq] at at_i
      rw [← at_i, nonceOf_encode]
      rfl
    | succ i =>
      rw [List.getElem?_cons_succ] at at_i
      have bound := encodeAll_length ▸ (List.getElem?_eq_some_iff.mp at_i).1
      have step := cnNonce_encode box easy m (e := sender) (by omega)
      rw [ih (by omega) at_i, step]
      omega

/-- A CURVE connection carries messages as they are and in their order, and none of them
    twice. -/
theorem messages_are_carried_once (box : Box) (easy easy' : Bool) (sender receiver : CurveEncoding)
    (ms : List Msg) (agrees : Agrees sender receiver)
    (room : sender.cnNonce.toNat + ms.length ≤ 2 ^ 64) :
    List.Forall₂ (Carries sender.downgradeSub) ms
        (receiver.decodeAll box easy' (sender.encodeAll box easy ms).1).1 ∧
      (∀ (d : CurveEncoding) (a : Msg) (between : List Msg),
        ((d.decode box easy' a).2.decodeAll box easy' between).2.Refuses box easy' a) ∧
      ∀ (i j : Nat) (a b : Msg), i < j → (sender.encodeAll box easy ms).1[i]? = some a →
        (sender.encodeAll box easy ms).1[j]? = some b →
        ∀ (d : CurveEncoding) (r : Msg) (between : List Msg), (d.decode box easy' b).1 = .ok r →
          ((d.decode box easy' b).2.decodeAll box easy' between).2.Refuses box easy' a := by
  refine ⟨decodeAll_encodeAll ms agrees room, fun d a between => refuses_twice box easy' d a between,
    fun i j a b before at_i at_j d r between accepted => ?_⟩
  apply refuses_of_le
  have earlier : nonceOf a ≤ nonceOf b := by
    rw [UInt64.le_iff_toNat_le, nonceOf_encodeAll ms room at_i, nonceOf_encodeAll ms room at_j]
    omega
  have onward := cnPeerNonce_le_decodeAll box easy' (d.decode box easy' b).2 between
  cases valid : d.checkValidity b with
  | error error => simp [decode, valid] at accepted
  | ok d' =>
    rw [cnPeerNonce_decode valid] at onward
    exact UInt64.le_trans earlier onward

def clientEnd : CurveEncoding where
  encodeNoncePrefix := clientNonces
  decodeNoncePrefix := serverNonces
  cnNonce := 3
  cnPrecom := [1, 2, 3]
  downgradeSub := false

def serverEnd : CurveEncoding where
  encodeNoncePrefix := serverNonces
  decodeNoncePrefix := clientNonces
  cnNonce := 2
  cnPeerNonce := 2
  cnPrecom := [1, 2, 3]
  downgradeSub := false

theorem messages_are_carried_once_two :
    List.Forall₂ (Carries false) [{ data := [1], flags := MsgFlag.more }, { data := [] }]
      (serverEnd.decodeAll .transparent false (clientEnd.encodeAll .transparent true
        [{ data := [1], flags := MsgFlag.more }, { data := [] }]).1).1 :=
  (messages_are_carried_once .transparent true false clientEnd serverEnd
    [{ data := [1], flags := MsgFlag.more }, { data := [] }]
    { precom := rfl, nonces := rfl, fresh := by decide } (by decide)).1

end CurveEncoding

end Zmq
