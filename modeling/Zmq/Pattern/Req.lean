import Zmq.Pattern.Dealer

/-! # REQ sockets

`req_t` is a dealer that sends a request, waits for the reply and sends the next request.
In front of a request it puts an envelope: a frame with the request id, if
ZMQ_REQ_CORRELATE is on, and an empty frame. From the pipe the request went to it takes the
first message that starts with the same envelope. `_message_begins` says that the envelope
is still to come; `lb_t` has its own idea of where a message begins.
-/

namespace Zmq

open Lib

structure Req (ι : Type) extends Dealer ι where
  receivingReply : Bool := false
  messageBegins : Bool := true
  replyPipe : Option ι := none
  requestIdFramesEnabled : Bool := false
  requestId : UInt32
  strict : Bool := true

namespace Req

variable {ι : Type} [DecidableEq ι] {opened : Opened}

def start (hwms : ι → End → Int) (requestId : UInt32) : Req ι :=
  { Dealer.start hwms with requestId := requestId }

def idBytes (id : UInt32) : List UInt8 :=
  [id.toUInt8, (id >>> 8).toUInt8, (id >>> 16).toUInt8, (id >>> 24).toUInt8]

def idFrame (id : UInt32) : Msg := { Msg.initSize (idBytes id) with flags := MsgFlag.more }

theorem idFrame_more (id : UInt32) : (idFrame id).more = true := by
  simp only [idFrame, Msg.more]
  decide

def bottom : Msg := { Msg.init with flags := MsgFlag.more }

def envelope (label : Option UInt32) : List Msg := (label.map idFrame).toList ++ [bottom]

/-! ## Sending -/

inductive Sent (ι : Type) where
  | efsm
  /-- -1 with EAGAIN: there was no pipe for the envelope. -/
  | eagain
  | frame (sent : Lb.Sent ι)
  deriving DecidableEq

def succeeded : Lb.Sent ι → Bool
  | .sent _ | .dropped => true
  | .again | .aborted => false

/-- `dealer_t::sendpipe (&msg, &_reply_pipe)`. -/
def sendpipe (s : Req ι) (msg : Msg) (tryLock : Bool) : Except Fault (Lb.Sent ι × Req ι) := do
  let (sent, d) ← s.toDealer.sendpipe msg tryLock
  match sent with
  | .sent pipe => .ok (sent, { s with toDealer := d, replyPipe := some pipe })
  | .dropped | .again | .aborted => .ok (sent, { s with toDealer := d })

def recvpipe (s : Req ι) : Except Fault (Option (ι × Msg) × Req ι) := do
  let (got, d) ← s.toDealer.recvpipe
  .ok (got, { s with toDealer := d })

def drain : Nat → Req ι → Except Fault (Req ι)
  | 0, s => .ok s
  | n + 1, s => do
      let (got, s) ← s.recvpipe
      match got with
      | some _ => drain n s
      | none => .ok s

variable (s : Req ι)

/-- The request id in front of a request; false is -1. -/
def sendId (tryLock : Bool) : Except Fault (Bool × Req ι) :=
  if s.requestIdFramesEnabled then do
    let (sent, s) ← sendpipe { s with requestId := s.requestId + 1 }
      (idFrame (s.requestId + 1)) tryLock
    .ok (succeeded sent, s)
  else .ok (true, s)

/-- The empty frame in front of a request, and the end of old replies. -/
def sendBottom (tryLock : Bool) : Except Fault (Bool × Req ι) := do
  let (sent, s) ← s.sendpipe bottom tryLock
  if succeeded sent then
    if s.replyPipe.isNone then .error (.assertion .reqXsend)
    else do
      let s ← drain (s.unread + 1) { s with messageBegins := false }
      .ok (true, s)
  else .ok (false, s)

/-- The part of `xsend` that is for the first frame of a request. -/
def beginMessage (tryLock : Bool) : Except Fault (Bool × Req ι) :=
  if s.messageBegins then do
    let (sent, s) ← sendId { s with replyPipe := none } tryLock
    if sent then s.sendBottom tryLock else .ok (false, s)
  else .ok (true, s)

def sendFrame (msg : Msg) (tryLock : Bool) : Except Fault (Sent ι × Req ι) := do
  let (sent, d) ← s.toDealer.sendpipe msg tryLock
  if succeeded sent && !msg.more then
    .ok (.frame sent, { s with toDealer := d, receivingReply := true, messageBegins := true })
  else .ok (.frame sent, { s with toDealer := d })

/-- A new request while a reply is awaited, with ZMQ_REQ_RELAXED. -/
def giveUp : Req ι :=
  if s.receivingReply then { s with receivingReply := false, messageBegins := true } else s

def xsend (msg : Msg) (tryLock : Bool) : Except Fault (Sent ι × Req ι) :=
  if s.receivingReply && s.strict then .ok (.efsm, s)
  else do
    let (begun, s) ← s.giveUp.beginMessage tryLock
    if begun then s.sendFrame msg tryLock else .ok (.eagain, s)

/-! ## Receiving -/

inductive Received where
  | efsm
  | eagain
  | frame (msg : Msg)
  deriving DecidableEq

def recvReplyPipe : Nat → Req ι → Except Fault (Option Msg × Req ι)
  | 0, s => .ok (none, s)
  | n + 1, s => do
      let (got, s) ← s.recvpipe
      match got with
      | none => .ok (none, s)
      | some (pipe, msg) =>
        if s.replyPipe.isNone || s.replyPipe = some pipe then .ok (some msg, s)
        else recvReplyPipe n s

def skipRest : Nat → Msg → Req ι → Except Fault (Req ι)
  | 0, _, s => .ok s
  | n + 1, msg, s =>
    if msg.more then do
      let (got, s) ← s.recvReplyPipe (s.unread + 1)
      match got with
      | some msg => skipRest n msg s
      | none => .error (.assertion .reqXrecv)
    else .ok s

inductive Opened where
  | found
  | skipped
  | eagain
  deriving DecidableEq

def openId (s : Req ι) : Except Fault (Opened × Req ι) :=
  if s.requestIdFramesEnabled then do
    let (got, s) ← s.recvReplyPipe (s.unread + 1)
    match got with
    | none => .ok (.eagain, s)
    | some msg =>
      if !msg.more || msg.size != 4 || msg.data != idBytes s.requestId then do
        let s ← skipRest (s.unread + 1) msg s
        .ok (.skipped, s)
      else .ok (.found, s)
  else .ok (.found, s)

def openBottom (s : Req ι) : Except Fault (Opened × Req ι) := do
  let (got, s) ← s.recvReplyPipe (s.unread + 1)
  match got with
  | none => .ok (.eagain, s)
  | some msg =>
    if !msg.more || msg.size != 0 then do
      let s ← skipRest (s.unread + 1) msg s
      .ok (.skipped, s)
    else .ok (.found, { s with messageBegins := false })

/-- Skip messages until one with the right first frames is found; false is EAGAIN. -/
def openReply : Nat → Req ι → Except Fault (Bool × Req ι)
  | 0, s => .ok (false, s)
  | n + 1, s =>
    if s.messageBegins then do
      let (opened, s) ← s.openId
      match opened with
      | .eagain => .ok (false, s)
      | .skipped => openReply n s
      | .found => do
          let (opened, s) ← s.openBottom
          match opened with
          | .eagain => .ok (false, s)
          | .skipped => openReply n s
          | .found => .ok (true, s)
    else .ok (true, s)

variable (s : Req ι)

def recvFrame : Except Fault (Received × Req ι) := do
  let (got, s) ← s.recvReplyPipe (s.unread + 1)
  match got with
  | none => .ok (.eagain, s)
  | some msg =>
    if msg.more then .ok (.frame msg, s)
    else .ok (.frame msg, { s with receivingReply := false, messageBegins := true })

def xrecv : Except Fault (Received × Req ι) :=
  if s.receivingReply then do
    let (opened, s) ← openReply (s.unread + 1) s
    if opened then s.recvFrame else .ok (.eagain, s)
  else .ok (.efsm, s)

/-! ## Everything else -/

def xhasIn : Except Fault (Bool × Req ι) :=
  if s.receivingReply then do
    let (b, d) ← s.toDealer.hasIn
    .ok (b, { s with toDealer := d })
  else .ok (false, s)

def xhasOut : Except Fault (Bool × Req ι) :=
  if s.receivingReply && s.strict then .ok (false, s)
  else do
    let (b, d) ← s.toDealer.hasOut
    .ok (b, { s with toDealer := d })

variable {s}

def react (s : Req ι) (pipe : ι) (event : Option Event) : Except Fault (Req ι) := do
  let d ← s.toDealer.react pipe event
  if event = some .pipeTerminated && s.replyPipe = some pipe then
    .ok { s with toDealer := d, replyPipe := none }
  else .ok { s with toDealer := d }

/-! ## What a call reads

Whatever `req_t` does with the frames it reads, the dealer below only sees that it is asked
for frames. -/

section Draws

variable {s s' s'' : Req ι} {n : Nat} {begins : Bool}

def Reads (s s' : Req ι) : Prop := ∃ d, Dealer.Draws s.toDealer d ∧ s' = { s with toDealer := d }

theorem Reads.refl : s.Reads s := ⟨_, .nothing, rfl⟩

theorem Reads.trans (reads : s.Reads s') (reads' : s'.Reads s'') : s.Reads s'' := by
  obtain ⟨d, draws, rfl⟩ := reads
  obtain ⟨d', draws', rfl⟩ := reads'
  exact ⟨d', draws.trans draws', rfl⟩

theorem recvpipe_draws : Ensures (fun r => s.Reads r.2) s.recvpipe :=
  fun _ done => by
    obtain ⟨⟨got, d⟩, ran, ⟨⟩⟩ := bind_ok.mp done
    exact ⟨d, .again ran .nothing, rfl⟩

theorem drain_draws (n : Nat) (s : Req ι) : Ensures s.Reads (drain n s) := by
  induction n generalizing s with
  | zero => exact .ok .refl
  | succ n ih =>
    refine .bind recvpipe_draws fun (got, t) reads => ?_
    cases got with
    | none => exact .ok reads
    | some frame => exact (ih t).mono fun _ => reads.trans

theorem drain_ends (readable : s.Readable) (enough : s.unread < n) (done : drain n s = .ok s') :
    ∃ d, Dealer.Draws s.toDealer d ∧ d.recvpipe = .ok (none, s'.toDealer) := by
  induction n generalizing s with
  | zero => omega
  | succ n ih =>
    obtain ⟨⟨got, t⟩, ran, rest⟩ := bind_ok.mp done
    obtain ⟨⟨got', d⟩, drawn, same⟩ := bind_ok.mp ran
    obtain ⟨rfl, rfl⟩ := ok_pair.mp same
    cases got' with
    | none =>
      cases rest
      exact ⟨_, .nothing, drawn⟩
    | some frame =>
      have fewer : d.unread < s.unread :=
        (Dealer.recvpipe_fetches readable.runs drawn).1.unread_lt readable.free
      obtain ⟨d', draws, last⟩ := ih (readable.recvpipe drawn) (by simp only; omega) rest
      exact ⟨d', .again drawn draws, last⟩

theorem recvReplyPipe_draws (n : Nat) (s : Req ι) :
    Ensures (fun r => s.Reads r.2) (recvReplyPipe n s) := by
  induction n generalizing s with
  | zero => exact .ok .refl
  | succ n ih =>
    refine .bind recvpipe_draws fun (got, t) reads => ?_
    cases got with
    | none => exact .ok reads
    | some frame =>
      exact .ite (fun _ => .ok reads) fun _ => (ih t).mono fun _ => reads.trans

theorem skipRest_draws (n : Nat) (msg : Msg) (s : Req ι) :
    Ensures s.Reads (skipRest n msg s) := by
  induction n generalizing s msg with
  | zero => exact .ok .refl
  | succ n ih =>
    refine .ite (fun _ => .bind (recvReplyPipe_draws _ s) fun (got, t) reads => ?_)
      fun _ => .ok .refl
    cases got with
    | none => exact .error
    | some msg => exact (ih msg t).mono fun _ => reads.trans

theorem openId_draws (s : Req ι) : Ensures (fun r => s.Reads r.2) s.openId := by
  refine .ite (fun _ => .bind (recvReplyPipe_draws _ s) fun (got, t) reads => ?_)
    fun _ => .ok .refl
  cases got with
  | none => exact .ok reads
  | some msg =>
    refine .ite (fun _ => .bind (skipRest_draws _ msg t) fun _ skips => ?_) fun _ => .ok reads
    exact .ok (reads.trans skips)

/-- Frames were read, and the envelope may have been found. -/
def Opening (s s' : Req ι) : Prop := ∃ begins, Reads { s with messageBegins := begins } s'

theorem Opening.trans (first : s.Opening s') (next : s'.Opening s'') : s.Opening s'' := by
  obtain ⟨_, d, draws, rfl⟩ := first
  obtain ⟨begins, d', draws', rfl⟩ := next
  exact ⟨begins, d', draws.trans draws', rfl⟩

theorem openBottom_draws (s : Req ι) : Ensures (fun r => s.Opening r.2) s.openBottom := by
  refine .bind (recvReplyPipe_draws _ s) fun (got, t) reads => ?_
  cases got with
  | none => exact .ok ⟨_, reads⟩
  | some msg =>
    refine .ite (fun _ => .bind (skipRest_draws _ msg t) fun _ skips => ?_) fun _ => ?_
    · exact .ok ⟨_, reads.trans skips⟩
    · obtain ⟨d, draws, rfl⟩ := reads
      exact .ok ⟨false, d, draws, rfl⟩

theorem openReply_draws (n : Nat) (s : Req ι) :
    Ensures (fun r => s.Opening r.2) (openReply n s) := by
  induction n generalizing s with
  | zero => exact .ok ⟨_, .refl⟩
  | succ n ih =>
    refine .ite (fun _ => .bind (openId_draws s) fun (ending, t) reads => ?_)
      fun _ => .ok ⟨_, .refl⟩
    have first : s.Opening t := ⟨_, reads⟩
    cases ending with
    | eagain => exact .ok first
    | skipped => exact (ih t).mono fun _ => first.trans
    | found =>
      refine .bind (openBottom_draws t) fun (ending, u) next => ?_
      cases ending with
      | eagain | found => exact .ok (first.trans next)
      | skipped => exact (ih u).mono fun _ => (first.trans next).trans

theorem xrecv_draws (s : Req ι) : Ensures (fun r => ∃ d begins receiving,
    Dealer.Draws s.toDealer d ∧
      r.2 = { s with toDealer := d, messageBegins := begins, receivingReply := receiving } ∧
      ((begins = true ∨ receiving = true) ↔ (s.messageBegins = true ∨ s.receivingReply = true)))
    s.xrecv := by
  refine .ite (fun waits => .bind (openReply_draws _ s) fun (opened, t) opening => ?_)
    fun _ => .ok ⟨_, _, _, .nothing, rfl, Iff.rfl⟩
  obtain ⟨begins, d, draws, rfl⟩ := opening
  refine .ite (fun _ => .bind (recvReplyPipe_draws _ _) fun (got, t) reads => ?_)
    fun _ => .ok ⟨d, _, _, draws, rfl, by simp [waits]⟩
  obtain ⟨d', draws', rfl⟩ := reads
  have both := draws.trans draws'
  cases got with
  | none => exact .ok ⟨d', _, _, both, rfl, by simp [waits]⟩
  | some msg =>
    refine .ite (fun _ => ?_) fun _ => ?_
    · exact .ok ⟨d', _, _, both, rfl, by simp [waits]⟩
    · exact .ok ⟨d', _, _, both, rfl, by simp [waits]⟩

end Draws

/-- A request as its user sent it. `id` is the request id, if ZMQ_REQ_CORRELATE was on when
    the request began. -/
structure Request where
  id : Option UInt32
  frames : List Msg
  deriving DecidableEq

def Request.message (request : Request) : List Msg := envelope request.id ++ request.frames

/-- A REQ socket with what its user has done: the complete requests, the frames of one that
    is not complete and the id in front of it. -/
structure Client (ι : Type) extends Req ι where
  requests : List Request := []
  begun : List Msg := []
  label : Option UInt32 := none

namespace Client

def start (hwms : ι → End → Int) (requestId : UInt32) : Client ι :=
  { Req.start hwms requestId with }

inductive Action (ι : Type) where
  | attach (pipe : ι)
  /-- One attempt of `socket_base_t::send`. The first attempt of a blocking call is
      `patient`: it takes -2 for success. -/
  | send (msg : Msg) (patient tryLock : Bool)
  | recv
  | hasIn
  | hasOut
  | correlate (on : Bool)
  | relaxed (on : Bool)
  | call (pipe : ι) (a : Zmq.Action)
  | deliver (pipe : ι)
  | peer (pipe : ι) (a : Zmq.Action)

def taken (patient : Bool) : Sent ι → Bool
  | .frame (.sent _) | .frame .dropped => true
  | .frame .aborted => patient
  | .efsm | .eagain | .frame .again => false

variable (s : Client ι)

def labelOf (requestId : UInt32) : Option UInt32 :=
  if s.begun = [] then if s.requestIdFramesEnabled then some requestId else none else s.label

def offered (msg : Msg) (patient : Bool) (sent : Sent ι) (req : Req ι) : Client ι :=
  if taken patient sent then
    if msg.more then
      { s with
        toReq := req, begun := s.begun ++ [msg], label := s.labelOf req.requestId }
    else
      { s with
        toReq := req, begun := [], label := s.labelOf req.requestId
        requests := s.requests ++ [⟨s.labelOf req.requestId, s.begun ++ [msg]⟩] }
  else { s with toReq := req }

def step (s : Client ι) : Action ι → Except Fault (Client ι)
  | .attach pipe => do
      let d ← s.toDealer.attach pipe
      .ok { s with toDealer := d }
  | .send msg patient tryLock => do
      let (sent, req) ← s.xsend msg tryLock
      .ok (s.offered msg patient sent req)
  | .recv => do
      let (_, req) ← s.xrecv
      .ok { s with toReq := req }
  | .hasIn => do
      let (_, req) ← s.xhasIn
      .ok { s with toReq := req }
  | .hasOut => do
      let (_, req) ← s.xhasOut
      .ok { s with toReq := req }
  | .correlate on => .ok { s with requestIdFramesEnabled := on }
  | .relaxed on => .ok { s with strict := !on }
  | .call pipe a => do
      let t ← (s.pair pipe).step (.first, a)
      .ok { s with pair := Function.update s.pair pipe t }
  | .deliver pipe => do
      let (t, event) ← (s.pair pipe).deliver .first
      let req ← Req.react { s.toReq with pair := Function.update s.pair pipe t } pipe event
      .ok { s with toReq := req }
  | .peer pipe a => do
      let t ← (s.pair pipe).step (.second, a)
      .ok { s with pair := Function.update s.pair pipe t }

def attached (pipe : ι) : Prop :=
  pipe ∈ s.fq.pipes.items ∧ pipe ∈ s.lb.pipes.items

def leaving (pipe : ι) : Prop :=
  ((s.pair pipe).mailbox .first).head? = some .pipeTermAck
  deriving Decidable

/-- The socket attaches a pipe once, and reads and writes frames through `req_t` only.
    Nobody renews a queue. -/
def Possible : Action ι → Prop
  | .attach pipe => ((s.pair pipe).pipe .first).deleted = false
  | .send msg _ _ => msg.isDelimiter = false
  | .recv | .hasIn | .hasOut | .correlate _ | .relaxed _ => True
  | .call pipe a => s.attached pipe ∧ (s.pair pipe).Considerate (.first, a) ∧ a.aside = true ∧
      a ≠ .checkWrite ∧ a ≠ .read ∧ a ≠ .checkRead ∧ a ≠ .hiccup ∧ a ≠ .deliver
  | .deliver pipe => s.attached pipe ∧ (s.pair pipe).mailbox .first ≠ []
  | .peer pipe a => (s.pair pipe).Considerate (.second, a) ∧ a ≠ .hiccup

instance (pipe : ι) : Decidable (s.attached pipe) :=
  inferInstanceAs (Decidable (_ ∧ _))

instance : DecidablePred s.Possible := fun a => by
  cases a <;> dsimp only [Possible] <;> infer_instance

end Client

end Req

end Zmq
