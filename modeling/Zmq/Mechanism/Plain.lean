import Zmq.Mechanism.Basic

/-! # The PLAIN mechanism

`plain_server_t`: the user name and the password of the client go to the ZAP handler, which
has to be there. Of `plain_client_t`, the command that carries them.
-/

namespace Zmq

def plainHello : List UInt8 := [5, 72, 69, 76, 76, 79]
def plainWelcome : List UInt8 := [7, 87, 69, 76, 67, 79, 77, 69]
def plainInitiate : List UInt8 := [8, 73, 78, 73, 84, 73, 65, 84, 69]
def plainReady : List UInt8 := [5, 82, 69, 65, 68, 89]

def produceHello (username password : List UInt8) : Except Fault Msg :=
  if username.length ≤ 255 ∧ password.length ≤ 255 then
    .ok (.initSize (plainHello ++ .ofNat username.length :: username ++
      .ofNat password.length :: password))
  else .error (.assertion .produceHello)

/-- `plain_server_t` has no fields of its own. -/
abbrev PlainServer := CommonHandshake

namespace PlainServer

def new (options : MechanismOptions) (peerAddress : List UInt8) : Except Fault PlainServer :=
  if options.zapEnforceDomain && !options.zapRequired then .error (.assertion .plainServer)
  else .ok { options := options, peerAddress := peerAddress, zapReplyOkState := .sendingWelcome }

/-- A string with its length in front, and what follows. -/
def brief : List UInt8 → Option (List UInt8 × List UInt8)
  | [] => none
  | n :: rest => if rest.length < n.toNat then none else some (rest.splitAt n.toNat)

def credentials (m : Msg) : Option (List UInt8 × List UInt8) :=
  if m.basicCommandStructure && m.startsWith plainHello then
    match brief (m.data.drop 6) with
    | none => none
    | some (username, rest) =>
      match brief rest with
      | some (password, []) => some (username, password)
      | _ => none
  else none

def processHello (m : Msg) : MechanismM PlainServer Rc :=
  match credentials m with
  | none => pure .failed
  | some (username, password) => do
      let (h, z) ← get
      let (connected, z) := z.zapConnect
      if connected then do
        let z := h.sendZapRequest [80, 76, 65, 73, 78] [username, password] z
        set ({ h with state := .waitingForZapReply }, z)
        let rc ← CommonHandshake.receiveAndProcessZapReply
        pure (CommonHandshake.failedOnly rc)
      else pure .failed

def processInitiate (m : Msg) : MechanismM PlainServer Rc := do
  if m.startsWith plainInitiate then do
    let (h, z) ← get
    let (well, id) := parseMetadata h.options (m.data.drop 9) h.routingId
    set ({ h with routingId := id, state := if well then .sendingReady else h.state }, z)
    pure (if well then .ok else .failed)
  else pure .failed

def processHandshakeCommand (m : Msg) : MechanismM PlainServer (Rc × Msg) := consumed m do
  let (h, _) ← get
  match h.state with
  | .waitingForHello => processHello m
  | .waitingForInitiate => processInitiate m
  | _ => pure .failed

def nextHandshakeCommand : MechanismM PlainServer (Rc × Msg) := do
  let (h, z) ← get
  match h.state with
  | .sendingWelcome => do
      set ({ h with state := .waitingForInitiate }, z)
      pure (.ok, .initSize plainWelcome)
  | .sendingReady => do
      set ({ h with state := .ready }, z)
      pure (.ok, h.options.makeCommandWithBasicProperties plainReady)
  | .sendingError => do
      let command ← CommonHandshake.produceError
      set ({ h with state := .errorSent }, z)
      pure command
  | _ => pure (.again, .init)

/-! ## The HELLO command -/

variable {name rest bytes username password : List UInt8} {m : Msg}

theorem brief_eq_some : brief bytes = some (name, rest) ↔
    bytes = .ofNat name.length :: (name ++ rest) ∧ name.length ≤ 255 := by
  cases bytes with
  | nil => simp [brief]
  | cons n tail =>
    have byte := n.toNat_lt
    rw [brief, List.splitAt_eq, List.cons.injEq]
    constructor
    · intro found
      split at found
      · cases found
      · cases found
        rw [List.length_take, Nat.min_eq_left (by omega), UInt8.ofNat_toNat, List.take_append_drop]
        exact ⟨⟨rfl, rfl⟩, by omega⟩
    · rintro ⟨⟨rfl, rfl⟩, short⟩
      have length : (UInt8.ofNat name.length).toNat = name.length :=
        UInt8.toNat_ofNat_of_lt' (by simp only [UInt8.size]; omega)
      rw [length, if_neg (by simp), List.take_left, List.drop_left]

theorem credentials_eq_some : credentials m = some (username, password) ↔
    m.data = plainHello ++ .ofNat username.length :: username ++ .ofNat password.length :: password ∧
      username.length ≤ 255 ∧ password.length ≤ 255 := by
  constructor
  · intro found
    unfold credentials at found
    split at found
    · rename_i named
      split at found
      · cases found
      · rename_i first
        split at found
        · rename_i second
          cases found
          obtain ⟨tail, short⟩ := brief_eq_some.mp first
          obtain ⟨rfl, short'⟩ := brief_eq_some.mp second
          have named : m.data.take 6 = plainHello := by
            simpa [Msg.startsWith, plainHello] using (Bool.and_eq_true_iff.mp named).2
          refine ⟨?_, short, short'⟩
          rw [← List.take_append_drop 6 m.data, named, tail]
          simp
        · cases found
    · cases found
  · rintro ⟨data, short, short'⟩
    have first : brief (m.data.drop 6) = some (username, .ofNat password.length :: password) :=
      brief_eq_some.mpr ⟨by simp [data, plainHello], short⟩
    have second : brief (.ofNat password.length :: password) = some (password, []) :=
      brief_eq_some.mpr ⟨by simp, short'⟩
    have named : (m.basicCommandStructure && m.startsWith plainHello) = true := by
      simp [Msg.basicCommandStructure, Msg.startsWith, Msg.size, data, plainHello]
    simp only [credentials, named, if_true, first, second]

end PlainServer

def ZapMechanism.plain : ZapMechanism PlainServer where
  status := CommonHandshake.status
  nextHandshakeCommand _ := PlainServer.nextHandshakeCommand
  processHandshakeCommand := PlainServer.processHandshakeCommand
  zapMsgAvailable := CommonHandshake.zapMsgAvailable

end Zmq
