import Zmq.Mechanism.CurveEncoding

/-! # The CURVE client

`curve_client_t` with `curve_client_tools_t`. The zeros that the library wants in front of its
buffers are left out. A client calls its tools with the keys it was configured with and its
short-term keys; what `_cn_precom` holds before the first WELCOME is whatever was in memory.
-/

namespace Zmq

open Lib

def helloCommand : List UInt8 := [5, 72, 69, 76, 76, 79]
def welcomeCommand : List UInt8 := [7, 87, 69, 76, 67, 79, 77, 69]
def initiateCommand : List UInt8 := [8, 73, 78, 73, 84, 73, 65, 84, 69]
def curveReady : List UInt8 := [5, 82, 69, 65, 68, 89]
def curveError : List UInt8 := [5, 69, 82, 82, 79, 82]

/-- The fixed parts of the nonces: `"CurveZMQHELLO---"`, `"WELCOME-"`, `"COOKIE--"`,
    `"VOUCH---"`, `"CurveZMQINITIATE"` and `"CurveZMQREADY---"`. -/
def helloNonce : List UInt8 := [67, 117, 114, 118, 101, 90, 77, 81, 72, 69, 76, 76, 79, 45, 45, 45]
def welcomeNonce : List UInt8 := [87, 69, 76, 67, 79, 77, 69, 45]
def cookieNonce : List UInt8 := [67, 79, 79, 75, 73, 69, 45, 45]
def vouchNonce : List UInt8 := [86, 79, 85, 67, 72, 45, 45, 45]
def initiateNonce : List UInt8 :=
  [67, 117, 114, 118, 101, 90, 77, 81, 73, 78, 73, 84, 73, 65, 84, 69]
def readyNonce : List UInt8 := [67, 117, 114, 118, 101, 90, 77, 81, 82, 69, 65, 68, 89, 45, 45, 45]

inductive ClientState where
  | sendHello
  | expectWelcome
  | sendInitiate
  | expectReady
  | errorReceived
  | connected
  deriving Repr, DecidableEq

structure CurveClient extends CurveEncoding where
  options : MechanismOptions
  state : ClientState := .sendHello
  routingId : List UInt8 := []
  /-- Our keys (C, c), the server's (S), our short-term ones (C', c'). -/
  publicKey : List UInt8
  secretKey : List UInt8
  serverKey : List UInt8
  cnPublic : List UInt8
  cnSecret : List UInt8
  /-- The server's short-term key (S') and the cookie. -/
  cnServer : List UInt8 := []
  cnCookie : List UInt8 := []

structure ClientKeys where
  publicKey : List UInt8
  secretKey : List UInt8
  serverKey : List UInt8
  cnPublic : List UInt8
  cnSecret : List UInt8

namespace CurveClient

/-- The constructor; `memory` is what `_cn_precom` happens to hold. -/
def new (options : MechanismOptions) (keys : ClientKeys) (memory : List UInt8)
    (downgradeSub : Bool) : CurveClient where
  encodeNoncePrefix := clientNonces
  decodeNoncePrefix := serverNonces
  cnPrecom := memory
  downgradeSub := downgradeSub
  options := options
  publicKey := keys.publicKey
  secretKey := keys.secretKey
  serverKey := keys.serverKey
  cnPublic := keys.cnPublic
  cnSecret := keys.cnSecret

variable (c : CurveClient)

def status : Status :=
  match c.state with
  | .connected => .ready
  | .errorReceived => .error
  | _ => .handshaking

variable (box : Box)

/-- `curve_client_t::produce_hello`: 64 zeros in a box from C' to S. -/
def produceHello : (Rc × Msg) × CurveClient :=
  let (n, e) := c.toCurveEncoding.getAndIncNonce
  let c := { c with toCurveEncoding := e }
  match box.box (Box.zeros 64) (helloNonce ++ putUint64 n) c.serverKey c.cnSecret with
  | none => ((.failed, .init), c)
  | some cipher =>
    ((.ok, .initSize (helloCommand ++ [1, 0] ++ Box.zeros 72 ++ c.cnPublic ++ putUint64 n ++
      cipher)), c)

def processWelcome (c : CurveClient) (m : Msg) : Except Fault (Rc × CurveClient) :=
  if m.size ≠ 168 then .ok (.failed, c)
  else
    match box.boxOpen (m.data.drop 24) (welcomeNonce ++ (m.data.drop 8).take 16) c.serverKey
      c.cnSecret with
    | none => .ok (.failed, c)
    | some plain =>
      match box.beforenm (plain.take 32) c.cnSecret with
      | none => .error (.assertion .processWelcome)
      | some key =>
        .ok (.ok, { c with
          cnServer := plain.take 32
          cnCookie := (plain.drop 32).take 96
          cnPrecom := key
          state := .sendInitiate })

/-- `curve_client_t::produce_initiate`; `random` is the nonce of the vouch. -/
def produceInitiate (random : List UInt8) : (Rc × Msg) × CurveClient :=
  let (n, e) := c.toCurveEncoding.getAndIncNonce
  let c := { c with toCurveEncoding := e }
  let fresh := random.take 16
  match box.box (c.cnPublic ++ c.serverKey) (vouchNonce ++ fresh) c.cnServer c.secretKey with
  | none => ((.failed, .init), c)
  | some vouch =>
    match box.box (c.publicKey ++ fresh ++ vouch ++ c.options.addBasicProperties)
      (initiateNonce ++ putUint64 n) c.cnServer c.cnSecret with
    | none => ((.failed, .init), c)
    | some cipher =>
      ((.ok, .initSize (initiateCommand ++ c.cnCookie ++ putUint64 n ++ cipher)), c)

def readyPlaintext (key : List UInt8) (m : Msg) : Option (List UInt8) :=
  box.opened key (readyNonce ++ (m.data.drop 6).take 8) (m.data.drop 14)

def processReady (m : Msg) : Rc × CurveClient :=
  if m.size < 30 then (.failed, c)
  else
    let c := { c with cnPeerNonce := getUint64 (m.data.drop 6) }
    match readyPlaintext box c.cnPrecom m with
    | none => (.failed, c)
    | some plain =>
      let (well, id) := parseMetadata c.options plain c.routingId
      if well then (.ok, { c with routingId := id, state := .connected })
      else (.failed, { c with routingId := id })

def processError (m : Msg) : Rc × CurveClient :=
  if c.state ≠ .expectWelcome ∧ c.state ≠ .expectReady then (.failed, c)
  else if m.size < 7 then (.failed, c)
  else if m.size - 7 < (m.data.getD 6 0).toNat then (.failed, c)
  else (.ok, { c with state := .errorReceived })

def nextHandshakeCommand (random : List UInt8) : (Rc × Msg) × CurveClient :=
  match c.state with
  | .sendHello =>
    match c.produceHello box with
    | ((.ok, m), c) => ((.ok, m), { c with state := .expectWelcome })
    | failed => failed
  | .sendInitiate =>
    match c.produceInitiate box random with
    | ((.ok, m), c) => ((.ok, m), { c with state := .expectReady })
    | failed => failed
  | _ => ((.again, .init), c)

/-- The name of a command decides what is done with it; only ERROR asks for the state. -/
def dispatch (m : Msg) : Except Fault (Rc × CurveClient) :=
  if m.startsWith welcomeCommand then c.processWelcome box m
  else if m.startsWith curveReady then .ok (c.processReady box m)
  else if m.startsWith curveError then .ok (c.processError m)
  else .ok (.failed, c)

def processHandshakeCommand (m : Msg) :
    Except Fault ((Rc × Msg) × CurveClient) := do
  let (rc, c) ← c.dispatch box m
  .ok ((rc, if rc = .ok then .init else m), c)

end CurveClient

inductive ClientCall where
  | next (random : List UInt8)
  | process (m : Msg)

namespace CurveClient

variable (box : Box) {keys : ClientKeys} {m : Msg} {a : ClientCall} {rc : Rc}

def step (c : CurveClient) : ClientCall → Except Fault CurveClient
  | .next random => .ok (c.nextHandshakeCommand box random).2
  | .process m => do
      let (_, c) ← c.processHandshakeCommand box m
      .ok c

/-! ## What a call does -/

/-- A WELCOME command that opens under the key of the server, and the key computed from it. -/
def WelcomeKey (serverKey cnSecret : List UInt8) (m : Msg) (key : List UInt8) : Prop :=
  m.startsWith welcomeCommand = true ∧
    ∃ plain, box.boxOpen (m.data.drop 24) (welcomeNonce ++ (m.data.drop 8).take 16) serverKey
      cnSecret = some plain ∧ box.beforenm (plain.take 32) cnSecret = some key

def ReadyOpens (key : List UInt8) (m : Msg) : Prop :=
  m.startsWith curveReady = true ∧ (readyPlaintext box key m).isSome = true
  deriving Decidable

structure SameKeys (c d : CurveClient) : Prop where
  serverKey : d.serverKey = c.serverKey
  cnSecret : d.cnSecret = c.cnSecret

/-- What a call can do to the state of the client and the key of the connection. -/
inductive Effect (c : CurveClient) : ClientCall → CurveClient → Prop where
  | nothing {a d} : d.state = c.state → d.cnPrecom = c.cnPrecom → Effect c a d
  | hello {random d} : d.state = .expectWelcome → Effect c (.next random) d
  | initiate {random d} : c.state = .sendInitiate →
      (c.nextHandshakeCommand box random).1.1 = .ok → d.state = .expectReady →
      d.cnPrecom = c.cnPrecom → Effect c (.next random) d
  | welcome {m d} : WelcomeKey box c.serverKey c.cnSecret m d.cnPrecom →
      d.state = .sendInitiate → Effect c (.process m) d
  | ready {m d} : ReadyOpens box c.cnPrecom m → d.state = .connected → Effect c (.process m) d
  | error {m d} : d.state = .errorReceived → Effect c (.process m) d

variable {box} {c d : CurveClient}

theorem processWelcome_effect (named : m.startsWith welcomeCommand = true)
    (run : c.processWelcome box m = .ok (rc, d)) : SameKeys c d ∧ Effect box c (.process m) d := by
  unfold processWelcome at run
  split at run
  · cases run
    exact ⟨⟨rfl, rfl⟩, .nothing rfl rfl⟩
  · split at run
    · cases run
      exact ⟨⟨rfl, rfl⟩, .nothing rfl rfl⟩
    · rename_i plain opens
      split at run
      · cases run
      · rename_i key computed
        cases run
        exact ⟨⟨rfl, rfl⟩, .welcome ⟨named, plain, opens, computed⟩ rfl⟩

theorem processReady_effect (named : m.startsWith curveReady = true) :
    SameKeys c (c.processReady box m).2 ∧ Effect box c (.process m) (c.processReady box m).2 := by
  unfold processReady
  split
  · exact ⟨⟨rfl, rfl⟩, .nothing rfl rfl⟩
  · dsimp only
    split
    · exact ⟨⟨rfl, rfl⟩, .nothing rfl rfl⟩
    · rename_i plain opens
      split
      · exact ⟨⟨rfl, rfl⟩, .ready ⟨named, by simp [opens]⟩ rfl⟩
      · exact ⟨⟨rfl, rfl⟩, .nothing rfl rfl⟩

theorem processError_effect :
    SameKeys c (c.processError m).2 ∧ Effect box c (.process m) (c.processError m).2 := by
  unfold processError
  split
  · exact ⟨⟨rfl, rfl⟩, .nothing rfl rfl⟩
  · split
    · exact ⟨⟨rfl, rfl⟩, .nothing rfl rfl⟩
    · split
      · exact ⟨⟨rfl, rfl⟩, .nothing rfl rfl⟩
      · exact ⟨⟨rfl, rfl⟩, .error rfl⟩

theorem produceHello_snd (box : Box) (c : CurveClient) :
    (c.produceHello box).2 = { c with cnNonce := c.cnNonce + 1 } := by
  unfold produceHello
  dsimp only
  split <;> rfl

theorem produceInitiate_snd (box : Box) (c : CurveClient) (random : List UInt8) :
    (c.produceInitiate box random).2 = { c with cnNonce := c.cnNonce + 1 } := by
  unfold produceInitiate
  dsimp only
  split
  · rfl
  · split <;> rfl

theorem nextHandshakeCommand_effect {random : List UInt8} :
    SameKeys c (c.nextHandshakeCommand box random).2 ∧
      Effect box c (.next random) (c.nextHandshakeCommand box random).2 := by
  cases state : c.state with
  | sendHello =>
    rcases run : c.produceHello box with ⟨⟨rc, m⟩, d⟩
    obtain rfl : { c with cnNonce := c.cnNonce + 1 } = d := by
      rw [← produceHello_snd box, run]
    cases rc with
    | ok =>
      simp only [nextHandshakeCommand, state, run]
      exact ⟨⟨rfl, rfl⟩, .hello rfl⟩
    | again | failed =>
      simp only [nextHandshakeCommand, state, run]
      exact ⟨⟨rfl, rfl⟩, .nothing state.symm rfl⟩
  | sendInitiate =>
    rcases run : c.produceInitiate box random with ⟨⟨rc, m⟩, d⟩
    obtain rfl : { c with cnNonce := c.cnNonce + 1 } = d := by
      rw [← produceInitiate_snd box _ random, run]
    cases rc with
    | ok =>
      have made : (c.nextHandshakeCommand box random).1.1 = .ok := by
        simp only [nextHandshakeCommand, state, run]
      refine ⟨?_, .initiate state made ?_ ?_⟩
      all_goals simp only [nextHandshakeCommand, state, run]
      exact ⟨rfl, rfl⟩
    | again | failed =>
      simp only [nextHandshakeCommand, state, run]
      exact ⟨⟨rfl, rfl⟩, .nothing state.symm rfl⟩
  | _ =>
    simp only [nextHandshakeCommand, state]
    exact ⟨⟨rfl, rfl⟩, .nothing rfl rfl⟩

theorem dispatch_effect (run : c.dispatch box m = .ok (rc, d)) :
    SameKeys c d ∧ Effect box c (.process m) d := by
  unfold dispatch at run
  split at run
  · rename_i named
    exact processWelcome_effect named run
  · split at run
    · rename_i named
      obtain rfl : (c.processReady box m).2 = d := congrArg Prod.snd (Except.ok.inj run)
      exact processReady_effect named
    · split at run
      · obtain rfl : (c.processError m).2 = d := congrArg Prod.snd (Except.ok.inj run)
        exact processError_effect
      · cases run
        exact ⟨⟨rfl, rfl⟩, .nothing rfl rfl⟩

theorem step_effect (taken : c.step box a = .ok d) : SameKeys c d ∧ Effect box c a d := by
  cases a with
  | next random =>
    cases taken
    exact nextHandshakeCommand_effect
  | process m =>
    simp only [step, processHandshakeCommand, bind_ok] at taken
    obtain ⟨result, ⟨⟨rc, e⟩, run, made⟩, same⟩ := taken
    cases made
    cases same
    exact dispatch_effect run

/-! ## Authentication of the server -/

abbrev Called := CurveClient × ClientCall

/-- The server has shown in a WELCOME command that it has its key, and the key of the
    connection came from there. -/
def Welcomed (box : Box) (keys : ClientKeys) (key : List UInt8) : List Called → Prop :=
  Occurred fun _ now => ∃ m, now.2 = .process m ∧
    WelcomeKey box keys.serverKey keys.cnSecret m key

/-- After that the client has made an INITIATE command. -/
def Initiated (box : Box) (keys : ClientKeys) (key : List UInt8) : List Called → Prop :=
  Occurred fun before now => Welcomed box keys key before ∧
    ∃ random, now.2 = .next random ∧ now.1.state = .sendInitiate ∧
      (now.1.nextHandshakeCommand box random).1.1 = .ok

/-- After that a READY command has opened under the key of the connection. -/
def Authenticated (box : Box) (keys : ClientKeys) : List Called → Prop :=
  Occurred fun before now => ∃ key m, Initiated box keys key before ∧ now.2 = .process m ∧
    ReadyOpens box key m

/-- A READY command that opens comes when the client expects one. -/
def InOrder (box : Box) (c : CurveClient) : ClientCall → Prop
  | .next _ => True
  | .process m => ReadyOpens box c.cnPrecom m → c.state = .expectReady

instance (c : CurveClient) (a : ClientCall) : Decidable (c.InOrder box a) := by
  cases a <;> dsimp only [InOrder] <;> infer_instance

/-- What has happened by the time a client is in a state. -/
structure Accounts (box : Box) (keys : ClientKeys) (past : List Called) (c : CurveClient) :
    Prop where
  serverKey : c.serverKey = keys.serverKey
  cnSecret : c.cnSecret = keys.cnSecret
  welcomed : c.state = .sendInitiate → Welcomed box keys c.cnPrecom past
  initiated : c.state = .expectReady → Initiated box keys c.cnPrecom past
  authenticated : c.state = .connected → Authenticated box keys past

theorem Accounts.step {past : List Called} (accounts : Accounts box keys past c)
    (inOrder : c.InOrder box a)
    (taken : c.step box a = .ok d) : Accounts box keys (past ++ [(c, a)]) d := by
  obtain ⟨same, effect⟩ := step_effect taken
  have serverKey := same.serverKey.trans accounts.serverKey
  have cnSecret := same.cnSecret.trans accounts.cnSecret
  cases effect with
  | nothing state precom =>
    refine ⟨serverKey, cnSecret, fun h => ?_, fun h => ?_, fun h => ?_⟩
    · rw [precom]
      exact (accounts.welcomed (state ▸ h)).later _
    · rw [precom]
      exact (accounts.initiated (state ▸ h)).later _
    · exact (accounts.authenticated (state ▸ h)).later _
  | hello how | error how =>
    exact ⟨serverKey, cnSecret, by simp [how], by simp [how], by simp [how]⟩
  | initiate ready made state precom =>
    refine ⟨serverKey, cnSecret, by simp [state], fun _ => ?_, by simp [state]⟩
    rw [precom]
    exact .now ⟨accounts.welcomed ready, _, rfl, ready, made⟩
  | welcome opens state =>
    refine ⟨serverKey, cnSecret, fun _ => ?_, by simp [state], by simp [state]⟩
    rw [accounts.serverKey, accounts.cnSecret] at opens
    exact .now ⟨_, rfl, opens⟩
  | ready opens state =>
    refine ⟨serverKey, cnSecret, by simp [state], by simp [state], fun _ => ?_⟩
    exact .now ⟨_, _, accounts.initiated (inOrder opens), rfl, opens⟩

/-- A client that gets READY commands in their place is connected to the server it was
    configured for. -/
theorem connected_is_authenticated (box : Box) (options : MechanismOptions) (keys : ClientKeys)
    (memory : List UInt8) (downgradeSub : Bool) {past : List Called} {c : CurveClient}
    (run : Trace (step box) (InOrder box) (new options keys memory downgradeSub) past c)
    (connected : c.state = .connected) : Authenticated box keys past := by
  have accounts : Accounts box keys past c := by
    apply run.invariant
    · exact ⟨rfl, rfl, nofun, nofun, nofun⟩
    · intro past c a d accounts inOrder taken
      exact accounts.step inOrder taken
  exact accounts.authenticated connected

/-- Keys for a client and its server; public and secret ones are the same bytes. -/
def someKeys : ClientKeys where
  publicKey := List.replicate 32 1
  secretKey := List.replicate 32 1
  serverKey := List.replicate 32 2
  cnPublic := List.replicate 32 4
  cnSecret := List.replicate 32 4

/-- The WELCOME command of that server, with the short-term key 8. -/
def someWelcome : Msg :=
  .initSize (welcomeCommand ++ List.replicate 16 0 ++
    Box.transparent.sealed (List.replicate 32 6) (welcomeNonce ++ List.replicate 16 0)
      (List.replicate 32 8 ++ List.replicate 96 0))

def someReady (key : List UInt8) : Msg :=
  .initSize (curveReady ++ putUint64 1 ++
    Box.transparent.sealed key (readyNonce ++ putUint64 1) [])

theorem connected_is_authenticated_once :
    ∃ past c, Trace (step .transparent) (InOrder .transparent)
        (new {} someKeys (List.replicate 32 0) false) past c ∧
      c.state = .connected ∧ Authenticated .transparent someKeys past := by
  obtain ⟨past, c, run, connected⟩ := trace_of_record (step .transparent) (InOrder .transparent)
    (new {} someKeys (List.replicate 32 0) false)
    [.next [], .process someWelcome, .next [], .process (someReady (List.replicate 32 12))]
    (fun _ c => decide (c.state = .connected)) (by decide +kernel)
  have connected := of_decide_eq_true connected
  exact ⟨past, c, run, connected, connected_is_authenticated _ _ _ _ _ run connected⟩

def noInitiate (past : List Called) : Bool :=
  past.all fun called => match called.2 with
    | .next _ => called.1.state != .sendInitiate
    | .process _ => true

def noWelcome (past : List Called) : Bool :=
  past.all fun called => match called.2 with
    | .next _ => true
    | .process m => !m.startsWith welcomeCommand

theorem not_welcomed_of_noWelcome {key : List UInt8} {past : List Called}
    (none : noWelcome past = true) : ¬ Welcomed box keys key past := by
  rintro ⟨before, now, after, rfl, m, call, named, -⟩
  have at_now := List.all_eq_true.mp none now (by simp)
  simp [call, named] at at_now

theorem not_authenticated_of_noInitiate {past : List Called}
    (none : noInitiate past = true) : ¬ Authenticated box keys past := by
  rintro ⟨before, now, after, rfl, key, m, initiated, -⟩
  obtain ⟨earlier, made, later, rfl, -, random, call, state, -⟩ := initiated
  have at_made := List.all_eq_true.mp none made (by simp)
  simp [call, state] at at_made

/-- READY right after WELCOME, and READY right after HELLO under the bytes that `_cn_precom`
    happens to hold: the client is connected. -/
theorem connected_without_initiate :
    (∃ past c, Trace (step .transparent) (fun _ _ => True)
        (new {} someKeys (List.replicate 32 0) false) past c ∧
      c.state = .connected ∧ ¬ Authenticated .transparent someKeys past) ∧
    ∃ past c, Trace (step .transparent) (fun _ _ => True)
        (new {} someKeys (List.replicate 32 0) false) past c ∧
      c.state = .connected ∧ ∀ key, ¬ Welcomed .transparent someKeys key past := by
  constructor
  · obtain ⟨past, c, run, test⟩ := trace_of_record (step .transparent) (fun _ _ => True)
      (new {} someKeys (List.replicate 32 0) false)
      [.next [], .process someWelcome, .process (someReady (List.replicate 32 12))]
      (fun past c => decide (c.state = .connected ∧ noInitiate past = true)) (by decide +kernel)
    obtain ⟨connected, none⟩ := of_decide_eq_true test
    exact ⟨past, c, run, connected, not_authenticated_of_noInitiate none⟩
  · obtain ⟨past, c, run, test⟩ := trace_of_record (step .transparent) (fun _ _ => True)
      (new {} someKeys (List.replicate 32 0) false)
      [.next [], .process (someReady (List.replicate 32 0))]
      (fun past c => decide (c.state = .connected ∧ noWelcome past = true)) (by decide +kernel)
    obtain ⟨connected, none⟩ := of_decide_eq_true test
    exact ⟨past, c, run, connected, fun key => not_welcomed_of_noWelcome none⟩

end CurveClient

end Zmq
