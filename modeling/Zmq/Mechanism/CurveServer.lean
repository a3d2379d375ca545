import Zmq.Mechanism.CurveClient

/-! # The CURVE server

`curve_server_t`. The commands come from a client that may send anything; a client that knows
its keys is passed on to the ZAP handler, if there is one.
-/

namespace Zmq

open Lib

structure CurveServer extends CommonHandshake, CurveEncoding where
  /-- Our secret key (s), our short-term keys (S', s'), the client's short-term key (C') and
      the key of the cookie. -/
  secretKey : List UInt8
  cnPublic : List UInt8
  cnSecret : List UInt8
  cnClient : List UInt8 := []
  cookieKey : List UInt8 := []

structure ServerKeys where
  secretKey : List UInt8
  cnPublic : List UInt8
  cnSecret : List UInt8

namespace CurveServer

def new (options : MechanismOptions) (peerAddress : List UInt8) (keys : ServerKeys)
    (memory : List UInt8) (downgradeSub : Bool) : CurveServer where
  options := options
  peerAddress := peerAddress
  zapReplyOkState := .sendingReady
  encodeNoncePrefix := serverNonces
  decodeNoncePrefix := clientNonces
  cnPrecom := memory
  downgradeSub := downgradeSub
  secretKey := keys.secretKey
  cnPublic := keys.cnPublic
  cnSecret := keys.cnSecret

def common {α : Type} (x : MechanismM CommonHandshake α) : MechanismM CurveServer α :=
  zoom (fun k => (k.1.toCommonHandshake, k.2))
    (fun k part => ({ k.1 with toCommonHandshake := part.1 }, part.2)) x

def update (f : CurveServer → CurveServer) : MechanismM CurveServer Unit :=
  modify fun k => (f k.1, k.2)

variable (box : Box)

/-- `curve_server_t::process_hello`. The short-term key of the client and its nonce are kept
    before the box is opened. -/
def processHello (m : Msg) : MechanismM CurveServer Rc := do
  if !m.basicCommandStructure || !m.startsWith helloCommand || m.size ≠ 200 ||
      m.data.getD 6 0 ≠ 1 || m.data.getD 7 0 ≠ 0 then pure .failed
  else do
    let client := (m.data.drop 80).take 32
    update fun s => { s with cnClient := client, cnPeerNonce := getUint64 (m.data.drop 112) }
    let (s, _) ← get
    match box.boxOpen (m.data.drop 120) (helloNonce ++ (m.data.drop 112).take 8) client
      s.secretKey with
    | none => pure .failed
    | some _ => do
        update fun s => { s with state := .sendingWelcome }
        pure .ok

/-- `curve_server_t::produce_welcome`. It draws the nonce of the cookie, its key and the
    nonce of the command. -/
def produceWelcome (random : List UInt8) : MechanismM CurveServer (Rc × Msg) := do
  let cookieKey := (random.drop 16).take 32
  update fun s => { s with cookieKey := cookieKey }
  let (s, _) ← get
  let fresh := (random.drop 48).take 16
  let cookie := box.sealed cookieKey (cookieNonce ++ random.take 16) (s.cnClient ++ s.cnSecret)
  match box.box (s.cnPublic ++ random.take 16 ++ cookie) (welcomeNonce ++ fresh) s.cnClient
    s.secretKey with
  | none => pure (.failed, .init)
  | some cipher => pure (.ok, .initSize (welcomeCommand ++ fresh ++ cipher))

/-- The cookie of an INITIATE command is the one that went out with WELCOME. -/
def cookieIsOurs (s : CurveServer) (m : Msg) : Bool :=
  match box.opened s.cookieKey (cookieNonce ++ (m.data.drop 9).take 16)
    ((m.data.drop 25).take 80) with
  | none => false
  | some plain => plain.take 32 == s.cnClient && (plain.drop 32).take 32 == s.cnSecret

/-- The long-term key of the client and its metadata: the box opens, and so does the vouch in
    it, with the short-term key of the client. -/
def initiateContents (s : CurveServer) (m : Msg) : Option (List UInt8 × List UInt8) := do
  let plain ← box.boxOpen (m.data.drop 113) (initiateNonce ++ (m.data.drop 105).take 8) s.cnClient
    s.cnSecret
  let vouch ← box.boxOpen ((plain.drop 48).take 80) (vouchNonce ++ (plain.drop 32).take 16)
    (plain.take 32) s.cnSecret
  if vouch.take 32 = s.cnClient then some (plain.take 32, plain.drop 128) else none

def parseInitiate (metadata : List UInt8) : MechanismM CurveServer Rc := do
  let (s, _) ← get
  let (well, id) := parseMetadata s.options metadata s.routingId
  update fun s => { s with routingId := id }
  pure (if well then .ok else .failed)

/-- Ask the ZAP handler about a key, and then parse the metadata. Without a handler, or
    without a domain where one is enforced, the client is let in. -/
def authenticate (clientKey metadata : List UInt8) : MechanismM CurveServer Rc := do
  let (s, z) ← get
  if s.options.zapRequired || !s.options.zapEnforceDomain then do
    let (connected, z) := z.zapConnect
    if connected then do
      set ({ s with state := .waitingForZapReply },
        s.sendZapRequest [67, 85, 82, 86, 69] [clientKey] z)
      let rc ← common CommonHandshake.receiveAndProcessZapReply
      if rc = .failed then pure .failed else parseInitiate metadata
    else if !s.options.zapEnforceDomain then do
      update fun s => { s with state := .sendingReady }
      parseInitiate metadata
    else pure .failed
  else do
    update fun s => { s with state := .sendingReady }
    parseInitiate metadata

def processInitiate (m : Msg) : MechanismM CurveServer Rc := do
  let (s, _) ← get
  if !m.basicCommandStructure || !m.startsWith initiateCommand || m.size < 257 then pure .failed
  else if !s.cookieIsOurs box m then pure .failed
  else do
    update fun s => { s with cnPeerNonce := getUint64 (m.data.drop 105) }
    match s.initiateContents box m with
    | none => pure .failed
    | some (clientKey, metadata) =>
      match box.beforenm s.cnClient s.cnSecret with
      | none => throw (.assertion .processInitiate)
      | some key => do
          update fun s => { s with cnPrecom := key }
          authenticate clientKey metadata

def produceReady : MechanismM CurveServer (Rc × Msg) := do
  let (s, _) ← get
  let (n, e) := s.toCurveEncoding.getAndIncNonce
  update fun s => { s with toCurveEncoding := e }
  pure (.ok, .initSize (curveReady ++ putUint64 n ++
    box.sealed s.cnPrecom (readyNonce ++ putUint64 n) s.options.addBasicProperties))

def processHandshakeCommand (m : Msg) : MechanismM CurveServer (Rc × Msg) := consumed m do
  let (s, _) ← get
  match s.state with
  | .waitingForHello => processHello box m
  | .waitingForInitiate => processInitiate box m
  | _ => pure .failed

def proceed (state : HandshakeState) (x : MechanismM CurveServer (Rc × Msg)) :
    MechanismM CurveServer (Rc × Msg) := do
  let (rc, m) ← x
  if rc = .ok then update fun s => { s with state := state } else pure ()
  pure (rc, m)

def nextHandshakeCommand (random : List UInt8) : MechanismM CurveServer (Rc × Msg) := do
  let (s, _) ← get
  match s.state with
  | .sendingWelcome => proceed .waitingForInitiate (produceWelcome box random)
  | .sendingReady => proceed .ready (produceReady box)
  | .sendingError => proceed .errorSent (common CommonHandshake.produceError)
  | _ => pure (.again, .init)

end CurveServer

def ZapMechanism.curve (box : Box) : ZapMechanism CurveServer where
  status s := s.toCommonHandshake.status
  nextHandshakeCommand := CurveServer.nextHandshakeCommand box
  processHandshakeCommand := CurveServer.processHandshakeCommand box
  zapMsgAvailable := CurveServer.common CommonHandshake.zapMsgAvailable

end Zmq
