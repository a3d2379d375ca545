import Zmq.Pattern.Req

/-! # The framing of requests

Three parts of the library keep track of where a request begins: the user, `req_t` with
`_message_begins`, and `lb_t` with `_more` and `_dropping`. When `lb_t` gives a message up
at its last frame, only `lb_t` starts again.
-/

namespace Zmq

open Lib

/-- The pipes that take frames have no delimiter to be read: to drop what they hold does not
    close them. -/
def Dealer.Undelimited {ι : Type} (d : Dealer ι) : Prop :=
  ∀ p ∈ d.lb.pipes.items, ((d.pair p).checkWrite .first).1 = true →
    (d.pair p).seesDelimiter .first = false
  deriving Decidable

namespace Req

variable {ι : Type} [DecidableEq ι] {result : Sent ι} {req : Req ι} {p : ι} {b : Bool} {t : Pair}

/-- A dealer whose pipes carry the messages `sent`, and whose load balancer was given the
    frames `begun` of another one. -/
structure Loads (d : Dealer ι) (sent : List (ι × List Msg)) (begun : List Msg) : Prop where
  runs : d.fq.Runs d.pair
  balances : ∃ finished, Balancer.Inv ⟨d.lb, d.pair, begun, finished⟩ sent

inductive Posted (msg : Msg) (d : Dealer ι) (sent : List (ι × List Msg)) (begun : List Msg) :
    Lb.Sent ι → Dealer ι → Prop where
  | part {d' : Dealer ι} {p : ι} : msg.more = true → d.lb.dropping = false →
      d'.lb.dropping = false → d'.lb.more = true → d'.lb.turn p → ((d'.pair p).checkWrite .first).1 = true →
      Loads d' sent (begun ++ [msg]) → Posted msg d sent begun (.sent p) d'
  | whole {d' : Dealer ι} {p : ι} : msg.more = false → d.lb.dropping = false → d'.lb.dropping = false → d'.lb.more = false →
      Loads d' (sent ++ [(p, begun ++ [msg])]) [] → Posted msg d sent begun (.sent p) d'
  | dropped {d' : Dealer ι} {begun' : List Msg} : d.lb.dropping = true →
      d'.lb.dropping = msg.more → d'.lb.more = msg.more → Loads d' sent begun' →
      Posted msg d sent begun .dropped d'
  | again {d' : Dealer ι} : d.lb.dropping = false → d.lb.more = false → d'.lb.dropping = false →
      d'.lb.more = false → Loads d' sent [] → Posted msg d sent begun .again d'
  | aborted {d' : Dealer ι} : d.lb.dropping = false → d.lb.more = true →
      d'.lb.dropping = msg.more → Loads d' sent [] → Posted msg d sent begun .aborted d'

namespace Loads

variable {d d' : Dealer ι} {sent : List (ι × List Msg)} {begun : List Msg} {msg : Msg} {lock : Bool}
  {a : Action}

section

variable (loads : Loads d sent begun)
include loads

theorem lb_runs : d.lb.Runs d.pair := by
  obtain ⟨finished, inv⟩ := loads.balances
  exact .of_carrying inv.serves

theorem posted (data : msg.isDelimiter = false) {result : Lb.Sent ι}
    (done : d.sendpipe msg lock = .ok (result, d')) : Posted msg d sent begun result d' := by
  obtain ⟨⟨result', lb, pair⟩, ran, ⟨⟩⟩ := bind_ok.mp done
  have runs : d.fq.Runs pair := loads.runs.uses (Lb.sendpipe_uses loads.lb_runs ran).1 fun a writes => by
    rintro rfl
    cases writes
  obtain ⟨finished, inv⟩ := loads.balances
  have next := inv.sendpipe data ran
  cases Lb.sendpipe_flagged inv.serves inv.pos ran with
  | @sent lb p kept kept' more =>
    cases announces : msg.more with
    | true =>
      obtain ⟨here, accepts⟩ := Lb.sendpipe_turn inv.serves announces ran
      simp only [Balancer.answered, Balancer.handed, Balancer.routes, announces] at next
      exact .part announces kept kept' (more.trans announces) here accepts ⟨runs, _, next⟩
    | false =>
      simp only [Balancer.answered, Balancer.handed, Balancer.routes, announces] at next
      exact .whole announces kept kept' (more.trans announces) ⟨runs, _, next⟩
  | dropped dropping dropping' more' =>
    simp only [Balancer.answered, Balancer.handed] at next
    split at next <;> exact .dropped dropping dropping' more' ⟨runs, _, next⟩
  | again kept idle kept' idle' =>
    have nothing : begun = [] := inv.idle kept idle
    subst nothing
    exact .again kept idle kept' idle' ⟨runs, _, next⟩
  | aborted kept midway dropping' => exact .aborted kept midway dropping' ⟨runs, _, next⟩

theorem idle (kept : d.lb.dropping = false) (idle : d.lb.more = false) : Loads d sent [] := by
  obtain ⟨finished, inv⟩ := loads.balances
  obtain rfl : begun = [] := inv.idle kept idle
  exact loads

theorem draws (draws : Dealer.Draws d d') : Loads d' sent begun ∧ d'.lb = d.lb := by
  obtain ⟨runs, same, uses⟩ := draws.uses loads.runs
  obtain ⟨finished, inv⟩ := loads.balances
  refine ⟨⟨runs, finished, ?_⟩, same⟩
  rw [same]
  exact inv.uses uses fun a read => by subst read; exact ⟨rfl, nofun, nofun⟩

theorem hasIn (done : d.hasIn = .ok (b, d')) : Loads d' sent begun ∧ d'.lb = d.lb := by
  obtain ⟨⟨b', fq, pair⟩, ran, ⟨⟩⟩ := bind_ok.mp done
  obtain ⟨runs, uses⟩ := Fq.hasIn_uses loads.runs ran
  obtain ⟨finished, inv⟩ := loads.balances
  exact ⟨⟨runs, finished, inv.uses uses fun a look => by subst look; exact ⟨rfl, nofun, nofun⟩⟩, rfl⟩

theorem hasOut (done : d.hasOut = .ok (b, d')) :
    Loads d' sent begun ∧ d'.lb.more = d.lb.more ∧ d'.lb.dropping = d.lb.dropping := by
  obtain ⟨⟨b', lb, pair⟩, ran, ⟨⟩⟩ := bind_ok.mp done
  obtain ⟨uses, flags⟩ := Lb.hasOut_uses loads.lb_runs ran
  obtain ⟨finished, inv⟩ := loads.balances
  exact ⟨⟨loads.runs.uses uses fun a check => by subst check; nofun, finished, inv.hasOut ran⟩, flags⟩

theorem attach (stays : ((d.pair p).pipe .first).deleted = false) (done : d.attach p = .ok d') :
    Loads d' sent begun ∧ d'.lb.more = d.lb.more ∧ d'.lb.dropping = d.lb.dropping := by
  obtain ⟨fq, joined, done⟩ := bind_ok.mp done
  obtain ⟨lb, attached, rfl⟩ := bind_return.mp done
  obtain ⟨finished, inv⟩ := loads.balances
  refine ⟨⟨loads.runs.attach stays joined, finished, inv.attach stays attached⟩, ?_⟩
  obtain ⟨r, -, rfl⟩ := bind_return.mp attached
  exact ⟨rfl, rfl⟩

theorem deliver {event : Option Event} (reads : p ∈ d.fq.pipes.items)
    (writes : p ∈ d.lb.pipes.items) (waiting : (d.pair p).mailbox .first ≠ [])
    (placed : ((d.pair p).mailbox .first).head? = some .pipeTermAck → d.lb.more = true →
      d.lb.dropping = false → ¬ d.lb.displaces p)
    (done : (d.pair p).deliver .first = .ok (t, event))
    (reacts : Dealer.react { d with pair := Function.update d.pair p t } p event = .ok d') :
    Loads d' sent begun ∧ d'.lb.more = d.lb.more ∧
      (d'.lb.dropping = d.lb.dropping ∨ (d.lb.more = true ∧ d'.lb.dropping = true)) := by
  obtain ⟨fq, told, reacts⟩ := bind_ok.mp reacts
  obtain ⟨lb, heard, rfl⟩ := bind_return.mp reacts
  obtain ⟨finished, inv⟩ := loads.balances
  refine ⟨⟨loads.runs.deliver reads waiting done told, finished,
    inv.deliver writes waiting placed done heard⟩, ?_⟩
  unfold Balancer.react at heard
  split at heard
  · obtain ⟨r, -, rfl⟩ := bind_return.mp heard
    exact ⟨rfl, .inl rfl⟩
  · obtain ⟨r, -, rfl⟩ := bind_return.mp heard
    cases midway : d.lb.more with
    | false => simp
    | true => by_cases here : d.lb.pipes.index p = d.lb.current <;> simp [here]
  · cases heard
    exact ⟨rfl, .inl rfl⟩

theorem call (member : p ∈ d.lb.pipes.items) (fair : (d.pair p).Considerate (.first, a))
    (aside : a.aside = true) (other : a ≠ .checkWrite) (call : a ≠ .deliver)
    (done : (d.pair p).step (.first, a) = .ok t) :
    Loads { d with pair := Function.update d.pair p t } sent begun := by
  have outcome := (loads.runs.holds p).outcome fair.1 fair.silent done
  obtain ⟨finished, inv⟩ := loads.balances
  have stays := inv.serves.stays p member
  refine ⟨?_, finished, inv.call stays outcome aside other call⟩
  refine loads.runs.use (fun _ => (outcome.deleted call).trans stays) ?_ fun _ _ => id
  exact outcome.sound (loads.runs.holds p) fair.1

theorem peer (fair : (d.pair p).Considerate (.second, a)) (stays : a ≠ .hiccup)
    (done : (d.pair p).step (.second, a) = .ok t) :
    Loads { d with pair := Function.update d.pair p t } sent begun := by
  have outcome := (loads.runs.holds p).outcome fair.1 fair.silent done
  have untouched : t.pipe .first = (d.pair p).pipe .first := outcome.pipe_peer
  obtain ⟨finished, inv⟩ := loads.balances
  refine ⟨?_, finished, inv.peer fair stays outcome⟩
  refine loads.runs.use (fun member => ?_) (outcome.sound (loads.runs.holds p) fair.1) fun _ _ => id
  rw [untouched, loads.runs.stays p member]

/-- Sending neither opens a pipe nor brings a delimiter. -/
theorem undelimited {result : Lb.Sent ι} (done : d.sendpipe msg lock = .ok (result, d'))
    (undelimited : d.Undelimited) : d'.Undelimited := by
  obtain ⟨⟨result', lb, pair⟩, ran, ⟨⟩⟩ := bind_ok.mp done
  intro p member room
  obtain ⟨uses, members⟩ := Lb.sendpipe_uses loads.lb_runs ran
  obtain ⟨sees, before⟩ := uses.written p
  exact sees.trans (undelimited p (members p member) (before room))

theorem readable : d.Readable := by
  obtain ⟨finished, inv⟩ := loads.balances
  exact ⟨loads.runs, fun i => (inv.serves.holds i).free⟩

end

end Loads

/-! ## The envelope -/

section Envelope

variable {s s' : Req ι} {sent : List (ι × List Msg)} {msg : Msg} {lock : Bool}

theorem sendpipe_eq {result : Lb.Sent ι} (done : s.sendpipe msg lock = .ok (result, s')) :
    ∃ d reply, s.toDealer.sendpipe msg lock = .ok (result, d) ∧
      s' = { s with toDealer := d, replyPipe := reply } ∧ ∀ p, result = .sent p → reply = some p := by
  obtain ⟨⟨result', d⟩, ran, rest⟩ := bind_ok.mp done
  cases result' with
  | sent p =>
    cases rest
    exact ⟨d, some p, ran, rfl, fun q same => by rw [Lb.Sent.sent.inj same]⟩
  | _ =>
    cases rest
    exact ⟨d, s.replyPipe, ran, rfl, nofun⟩

/-- How an attempt to send an envelope ends. When it is sent, `frames` is what the load
    balancer was given. -/
inductive Begun (s : Req ι) (sent : List (ι × List Msg)) (frames : List Msg) :
    Bool → Req ι → Prop where
  | refused {d : Dealer ι} {reply : Option ι} : s.lb.more = false → d.lb.more = false →
      d.lb.dropping = false → Loads d sent [] →
      Begun s sent frames false { s with toDealer := d, replyPipe := reply }
  | opened {d : Dealer ι} {p : ι} : d.lb.more = true → d.lb.dropping = false → d.lb.turn p →
      Loads d sent frames →
      (s.Undelimited → ((d.pair p).checkWrite .first).1 = true) →
      Begun s sent frames true { s with toDealer := d, replyPipe := some p, messageBegins := false }

theorem sendBottom_begun {begun : List Msg} (loads : Loads s.toDealer sent begun)
    (kept : s.lb.dropping = false)
    (accepts : s.lb.more = true → ∃ p, s.lb.turn p ∧ ((s.pair p).checkWrite .first).1 = true)
    (done : s.sendBottom lock = .ok (b, s')) : Begun s sent (begun ++ [bottom]) b s' := by
  obtain ⟨⟨result, t⟩, sends, done⟩ := bind_ok.mp done
  obtain ⟨d, reply, ran, rfl, went⟩ := sendpipe_eq sends
  cases loads.posted rfl ran with
  | @part _ p announces _ kept' midway turn room loads' =>
    obtain rfl := went p rfl
    obtain ⟨t, drains, ⟨⟩⟩ := bind_ok.mp done
    obtain ⟨d', draws, rfl⟩ := drain_draws _ _ _ drains
    obtain ⟨loads'', lb⟩ := loads'.draws draws
    have unseen (undelimited : s.Undelimited) : (d.pair p).seesDelimiter .first = false :=
      loads.undelimited ran undelimited p (Rota.mem_of_turn turn) room
    rw [← lb] at kept' midway turn
    refine .opened midway kept' turn loads'' fun undelimited => ?_
    obtain ⟨-, -, uses⟩ := draws.uses loads'.runs
    exact uses.unseen loads'.readable.free p (unseen undelimited) room
  | whole last => cases last
  | dropped dropping => simp [kept] at dropping
  | again _ idle kept' idle' loads' =>
    obtain ⟨rfl, rfl⟩ := done
    exact .refused idle idle' kept' loads'
  | aborted _ midway =>
    obtain ⟨p, turn, open_⟩ := accepts midway
    obtain ⟨⟨result', lb, pair⟩, ran, same⟩ := bind_ok.mp ran
    simp only [Except.ok.injEq, Prod.mk.injEq] at same
    cases same.1.symm.trans (Lb.sendpipe_of_accepting loads.lb_runs kept turn open_ ran)

theorem beginMessage_begun (starts : s.messageBegins = true) (idle : s.lb.more = false)
    (kept : s.lb.dropping = false) (loads : Loads s.toDealer sent [])
    (done : s.beginMessage lock = .ok (b, s')) :
    ∃ id, Begun { s with requestId := id } sent
      (envelope (if s.requestIdFramesEnabled then some id else none)) b s' := by
  unfold beginMessage at done
  rw [if_pos starts] at done
  obtain ⟨⟨b', t⟩, first, done⟩ := bind_ok.mp done
  unfold sendId at first
  split at first
  · rename_i enabled
    obtain ⟨⟨result, t'⟩, sends, ⟨⟩⟩ := bind_ok.mp first
    obtain ⟨d, reply, ran, rfl, went⟩ := sendpipe_eq sends
    refine ⟨s.requestId + 1, ?_⟩
    cases loads.posted (by rfl) ran with
    | @part _ p _ _ kept' midway turn accepts loads' =>
      cases sendBottom_begun loads' kept' (fun _ => ⟨p, turn, accepts⟩) done with
      | refused stopped => simp [midway] at stopped
      | opened midway kept turn loads' room =>
        refine .opened midway kept turn ?_ fun undelimited => room (loads.undelimited ran undelimited)
        simpa [envelope, show s.requestIdFramesEnabled = true from enabled] using loads'
    | whole last => simp [idFrame_more] at last
    | dropped dropping => simp [kept] at dropping
    | again _ _ kept' idle' loads' =>
      obtain ⟨rfl, rfl⟩ := done
      exact .refused idle idle' kept' loads'
    | aborted _ midway => simp [idle] at midway
  · rename_i disabled
    cases first
    refine ⟨s.requestId, ?_⟩
    have disabled : s.requestIdFramesEnabled = false := by simpa using disabled
    have busy : s.lb.more = true → ∃ p, s.lb.turn p ∧ ((s.pair p).checkWrite .first).1 = true := by
      simp [idle]
    cases sendBottom_begun (s := { s with replyPipe := none }) loads kept busy done with
    | refused _ idle' kept' loads' => exact .refused idle idle' kept' loads'
    | opened midway kept turn loads' room =>
      refine .opened midway kept turn ?_ room
      simpa [envelope, disabled] using loads'

end Envelope

def resting (s : Req ι) : Bool := s.messageBegins || s.receivingReply

section Xsend

variable {s : Req ι} {sent : List (ι × List Msg)} {msg : Msg} {lock : Bool}

section

omit [DecidableEq ι]

theorem giveUp_messageBegins (rest : s.resting = true) : s.giveUp.messageBegins = true := by
  unfold giveUp
  split
  · rfl
  · rename_i silent
    simpa [resting, silent] using rest

theorem giveUp_frame (s : Req ι) : s.giveUp.receivingReply = false ∧
    s.giveUp.toDealer = s.toDealer ∧ s.giveUp.requestIdFramesEnabled = s.requestIdFramesEnabled := by
  unfold giveUp
  split <;> simp_all

end

inductive Starts (s : Req ι) (sent : List (ι × List Msg)) : Bool → Req ι → Prop where
  | on : s.resting = false → Starts s sent true s
  | begun {b : Bool} {t : Req ι} {id : UInt32} : s.resting = true →
      Begun { s.giveUp with requestId := id } sent
        (envelope (if s.giveUp.requestIdFramesEnabled then some id else none)) b t →
      Starts s sent b t

theorem xsend_starts
    (idle : s.resting = true → s.lb.more = false ∧ s.lb.dropping = false ∧ Loads s.toDealer sent [])
    (done : s.xsend msg lock = .ok (result, req)) :
    (result = .efsm ∧ req = s) ∨ ∃ b t, Starts s sent b t ∧
      if b then t.sendFrame msg lock = .ok (result, req) else result = .eagain ∧ req = t := by
  unfold xsend at done
  split at done
  · cases done
    exact .inl ⟨rfl, rfl⟩
  obtain ⟨⟨b, t⟩, begins, done⟩ := bind_ok.mp done
  refine .inr ⟨b, t, ?_, ?_⟩
  · cases rest : s.resting with
    | true =>
      obtain ⟨idle, kept, loads⟩ := idle rest
      have same := s.giveUp_frame.2.1
      obtain ⟨id, begun⟩ := beginMessage_begun (giveUp_messageBegins rest) (same ▸ idle)
        (same ▸ kept) (same ▸ loads) begins
      exact .begun rest begun
    | false =>
      obtain ⟨starts, silent⟩ : s.messageBegins = false ∧ s.receivingReply = false := by
        simpa [resting] using rest
      simp only [giveUp, silent, Bool.false_eq_true, if_false, beginMessage, starts] at begins
      obtain ⟨rfl, rfl⟩ := begins
      exact .on rest
  · cases b with
    | true => exact done
    | false =>
      simp only [Bool.false_eq_true, if_false, Except.ok.injEq, Prod.mk.injEq] at done
      exact ⟨done.1.symm, done.2.symm⟩

theorem sendFrame_eq {t : Req ι} (done : t.sendFrame msg lock = .ok (result, req)) :
    ∃ r d, t.toDealer.sendpipe msg lock = .ok (r, d) ∧ result = .frame r ∧ req =
      if succeeded r && !msg.more then
        { t with toDealer := d, receivingReply := true, messageBegins := true }
      else { t with toDealer := d } := by
  obtain ⟨⟨r, d⟩, ran, done⟩ := bind_ok.mp done
  simp only at done
  split at done <;>
    · cases done
      simp_all

end Xsend

/-- The last frame of a request can follow the others. In the middle of a request its pipe takes
    frames, unless the rest is being dropped; a request of one frame is not sent to a pipe on which
    there is a delimiter to be read. -/
def CanFinish (s : Req ι) : Prop :=
  if s.resting then s.Undelimited
  else s.lb.dropping = true ∨
    ∃ p ∈ s.lb.pipes.items, s.lb.turn p ∧ ((s.pair p).checkWrite .first).1 = true

instance (s : Req ι) : Decidable s.CanFinish := by
  dsimp only [CanFinish]
  infer_instance

theorem sendFrame_of_accepting {s : Req ι} {msg : Msg} {lock : Bool} (runs : s.lb.Runs s.pair)
    (kept : s.lb.dropping = false) (turn : s.lb.turn p)
    (room : ((s.pair p).checkWrite .first).1 = true)
    (done : s.sendFrame msg lock = .ok (result, req)) : result = .frame (.sent p) := by
  obtain ⟨r, d, ran, rfl, -⟩ := sendFrame_eq done
  obtain ⟨⟨result', lb, pair⟩, sends, ⟨⟩⟩ := bind_ok.mp ran
  rw [Lb.sendpipe_of_accepting runs kept turn room sends]

namespace Client

/-- What was flushed on the pipes is some of the user's requests, in order, each of them on
    one pipe, behind its envelope and with all its frames. -/
def WellFramed (s : Client ι) : Prop :=
  (∀ request ∈ s.requests, Balancer.IsMessage request.frames) ∧
    ∃ sent : List (ι × List Msg), (sent.map Prod.snd).Sublist (s.requests.map Request.message) ∧
      ∀ i k q, (s.pair i).queue .second k = some q → q.flushed = Balancer.routed sent i

/-- No request loses its last frame, and no pipe leaves in the middle of a request in a way that
    loses the position of the current one. -/
def Careful (s : Client ι) (a : Action ι) : Prop :=
  s.Possible a ∧ match a with
    | .send msg _ _ => msg.more = false → s.CanFinish
    | .deliver pipe => s.leaving pipe → s.lb.more = true → s.lb.dropping = false →
        ¬ s.lb.displaces pipe
    | _ => True

instance (s : Client ι) (a : Action ι) : Decidable (s.Careful a) := by
  induction a using Action.casesOn <;> dsimp only [Careful] <;> infer_instance

inductive Stage (s : Client ι) (sent : List (ι × List Msg)) : Prop where
  | resting : s.resting = true → s.lb.more = false → s.lb.dropping = false → s.begun = [] →
      Loads s.toDealer sent [] → Stage s sent
  | midway : s.resting = false → s.lb.more = true → s.lb.dropping = false → s.begun ≠ [] →
      Loads s.toDealer sent (envelope s.label ++ s.begun) → Stage s sent
  | dropping {frames : List Msg} : s.resting = false → s.lb.dropping = true →
      Loads s.toDealer sent frames → Stage s sent

structure Books (s : Client ι) (sent : List (ι × List Msg)) : Prop where
  begun : ∀ m ∈ s.begun, m.more = true
  requests : ∀ request ∈ s.requests, Balancer.IsMessage request.frames
  sublist : (sent.map Prod.snd).Sublist (s.requests.map Request.message)

variable {s s' : Client ι} {sent : List (ι × List Msg)} {msg : Msg} {patient lock : Bool}

theorem Stage.loads (stage : s.Stage sent) : ∃ frames, Loads s.toDealer sent frames := by
  cases stage with
  | resting _ _ _ _ loads | midway _ _ _ _ loads | dropping _ _ loads => exact ⟨_, loads⟩

theorem wellFramed (books : s.Books sent) (stage : s.Stage sent) : s.WellFramed := by
  obtain ⟨frames, loads⟩ := stage.loads
  obtain ⟨finished, inv⟩ := loads.balances
  exact ⟨books.requests, sent, books.sublist,
    fun i _ _ found => (inv.serves.holds i).flushed found⟩

theorem Stage.change (stage : s.Stage sent) (more : s'.lb.more = s.lb.more)
    (dropping : s'.lb.dropping = s.lb.dropping ∨ (s.lb.more = true ∧ s'.lb.dropping = true))
    (loads : ∀ frames, Loads s.toDealer sent frames → Loads s'.toDealer sent frames)
    (rests : s'.resting = s.resting := by rfl) (begun : s'.begun = s.begun := by rfl)
    (label : s'.label = s.label := by rfl) : s'.Stage sent := by
  cases stage with
  | resting rest idle kept none loads' =>
    have kept : s'.lb.dropping = false := by simpa [idle, kept] using dropping
    exact .resting (rests.trans rest) (more.trans idle) kept (begun.trans none) (loads _ loads')
  | midway rest midway kept some loads' =>
    rcases dropping with same | ⟨-, drops⟩
    · refine .midway (rests.trans rest) (more.trans midway) (same.trans kept) (begun ▸ some) ?_
      rw [begun, label]
      exact loads _ loads'
    · exact .dropping (rests.trans rest) drops (loads _ loads')
  | dropping rest drops loads' =>
    refine .dropping (rests.trans rest) ?_ (loads _ loads')
    rcases dropping with same | ⟨-, drops'⟩
    · exact same.trans drops
    · exact drops'

section

omit [DecidableEq ι]

theorem offered_toReq (sent : Sent ι) (req : Req ι) :
    (s.offered msg patient sent req).toReq = req := by
  unfold offered
  split
  · split <;> rfl
  · rfl

theorem offered_books (books : s.Books sent) (msg : Msg) (patient : Bool) (result : Sent ι)
    (req : Req ι) : (s.offered msg patient result req).Books sent := by
  unfold offered
  split
  · split
    · rename_i announces
      exact ⟨forall_mem_concat books.begun announces, books.requests, books.sublist⟩
    · rename_i last
      refine ⟨nofun, forall_mem_concat books.requests ?_, ?_⟩
      · exact ⟨s.begun, msg, rfl, books.begun, by simpa using last⟩
      · rw [List.map_append]
        exact books.sublist.trans (List.sublist_append_left _ _)
  · exact { books with }

theorem offered_books_whole (books : s.Books sent) (req : Req ι) (last : msg.more = false) :
    (s.offered msg patient (.frame (.sent p)) req).Books
      (sent ++ [(p, envelope (s.labelOf req.requestId) ++ s.begun ++ [msg])]) := by
  have next := offered_books books msg patient (.frame (.sent p)) req
  refine ⟨next.begun, next.requests, ?_⟩
  simp only [offered, taken, last, if_true, Bool.false_eq_true, if_false, List.map_append]
  refine books.sublist.append ?_
  simp [Request.message]

end

theorem Stage.sendFrame (books : s.Books sent) {t : Req ι} (rest : t.resting = false)
    (midway : t.lb.more = true) (kept : t.lb.dropping = false)
    (loads : Loads t.toDealer sent (envelope (s.labelOf t.requestId) ++ s.begun))
    (data : msg.isDelimiter = false) (fine : result = .frame .aborted → msg.more = true)
    (done : t.sendFrame msg lock = .ok (result, req)) :
    ∃ sent', (s.offered msg patient result req).Books sent' ∧
      (s.offered msg patient result req).Stage sent' := by
  obtain ⟨r, d, ran, rfl, rfl⟩ := sendFrame_eq done
  cases loads.posted data ran with
  | @part _ p announces _ kept' midway' _ _ loads' =>
    refine ⟨sent, offered_books books _ _ _ _, ?_⟩
    simp only [announces, offered, taken]
    exact .midway rest midway' kept' (by simp) (by simpa using loads')
  | @whole _ p last _ kept' idle' loads' =>
    refine ⟨_, offered_books_whole books _ last, ?_⟩
    simp only [offered, last]
    exact .resting rfl idle' kept' rfl loads'
  | dropped drops => simp [kept] at drops
  | again _ idle => simp [midway] at idle
  | aborted _ _ drops' loads' =>
    have announces := fine rfl
    refine ⟨sent, offered_books books _ _ _ _, ?_⟩
    refine .dropping ?_ ?_ (?_ : Loads _ sent []) <;> rw [offered_toReq]
    · exact rest
    · exact drops'.trans announces
    · exact loads'

theorem Stage.idle (stage : s.Stage sent) (rest : s.resting = true) :
    s.lb.more = false ∧ s.lb.dropping = false ∧ Loads s.toDealer sent [] := by
  cases stage with
  | resting _ idle kept _ loads => exact ⟨idle, kept, loads⟩
  | midway still | dropping still => simp [rest] at still

theorem Stage.begun_nil (stage : s.Stage sent) (rest : s.resting = true) : s.begun = [] := by
  cases stage with
  | resting _ _ _ none => exact none
  | midway still | dropping still => simp [rest] at still

theorem Stage.finishes (stage : s.Stage sent) (canFinish : s.CanFinish) (data : msg.isDelimiter = false)
    (done : s.xsend msg lock = .ok (result, req)) : result ≠ .frame .aborted := by
  rintro rfl
  rcases xsend_starts stage.idle done with ⟨⟨⟩, -⟩ | ⟨b, t, starts, ends⟩
  cases starts with
  | begun rest begun =>
    rw [CanFinish, if_pos rest] at canFinish
    cases begun with
    | refused => cases ends.1
    | opened _ kept turn loads room =>
      cases sendFrame_of_accepting loads.lb_runs kept turn
        (room (by simpa [s.giveUp_frame] using canFinish)) ends
  | on rest =>
    rw [CanFinish, if_neg (by simp [rest])] at canFinish
    obtain ⟨frames, loads⟩ := stage.loads
    obtain ⟨r, d, ran, ⟨⟩, -⟩ := sendFrame_eq ends
    cases loads.posted data ran with
    | aborted kept =>
      obtain ⟨p, -, turn, room⟩ := canFinish.resolve_left (by simp [kept])
      cases sendFrame_of_accepting loads.lb_runs kept turn room ends

theorem Stage.send (books : s.Books sent) (stage : s.Stage sent) (data : msg.isDelimiter = false)
    (fine : result = .frame .aborted → msg.more = true)
    (done : s.xsend msg lock = .ok (result, req)) :
    ∃ sent', (s.offered msg patient result req).Books sent' ∧
      (s.offered msg patient result req).Stage sent' := by
  rcases xsend_starts stage.idle done with ⟨rfl, rfl⟩ | ⟨b, t, starts, ends⟩
  · exact ⟨sent, books, stage⟩
  cases starts with
  | begun rest begun =>
    have none := stage.begun_nil rest
    cases begun with
    | refused _ idle' kept' loads' =>
      obtain ⟨rfl, rfl⟩ := ends
      refine ⟨sent, offered_books books _ _ _ _, .resting ?_ idle' kept' none loads'⟩
      simp [offered, taken, Req.resting, giveUp_messageBegins rest]
    | opened midway kept _ loads' =>
      refine Stage.sendFrame books ?_ midway kept ?_ data fine ends
      · simp [Req.resting, s.giveUp_frame]
      · simpa [labelOf, none, s.giveUp_frame] using loads'
  | on rest =>
    cases stage with
    | resting still => simp [rest] at still
    | midway _ midway kept some loads =>
      refine Stage.sendFrame books rest midway kept ?_ data fine ends
      simpa [labelOf, some] using loads
    | dropping _ drops loads =>
      obtain ⟨r, d, ran, rfl, rfl⟩ := sendFrame_eq ends
      cases loads.posted data ran with
      | dropped _ drops' more' loads' =>
        refine ⟨sent, offered_books books _ _ _ _, ?_⟩
        cases announces : msg.more with
        | true =>
          simp only [offered, announces]
          exact .dropping rest (drops'.trans announces) loads'
        | false =>
          have idle' := more'.trans announces
          have kept' := drops'.trans announces
          simp only [offered, announces]
          exact .resting rfl idle' kept' rfl (loads'.idle kept' idle')
      | part _ kept | whole _ kept | again kept | aborted kept => simp [drops] at kept

theorem Stage.step (books : s.Books sent) (stage : s.Stage sent) {a : Action ι}
    (careful : s.Careful a) (taken : s.step a = .ok s') : ∃ sent', s'.Books sent' ∧ s'.Stage sent' := by
  obtain ⟨possible, careful⟩ := careful
  obtain ⟨frames, loads⟩ := stage.loads
  have kept {t : Client ι} (begun : t.begun = s.begun := by rfl)
      (requests : t.requests = s.requests := by rfl) : t.Books sent := ⟨begun ▸ books.begun, requests ▸ books.requests, requests ▸ books.sublist⟩
  cases a with
  | attach p =>
    obtain ⟨d, done, rfl⟩ := bind_return.mp taken
    obtain ⟨-, more, dropping⟩ := loads.attach possible done
    exact ⟨sent, kept, stage.change more (.inl dropping)
      fun _ loads => (loads.attach possible done).1⟩
  | send msg patient lock =>
    obtain ⟨⟨result, req⟩, done, ⟨⟩⟩ := bind_ok.mp taken
    refine Stage.send books stage possible (fun cut => ?_) done
    by_contra last
    exact stage.finishes (careful (by simpa using last)) possible done cut
  | recv =>
    obtain ⟨⟨got, req⟩, done, ⟨⟩⟩ := bind_ok.mp taken
    obtain ⟨d, begins, receiving, draws, rfl, still⟩ := xrecv_draws s.toReq _ done
    have rests : (begins || receiving) = s.resting := by
      rw [Req.resting, Bool.eq_iff_iff, Bool.or_eq_true, Bool.or_eq_true]
      exact still
    have lb := (loads.draws draws).2
    exact ⟨sent, kept, stage.change (by rw [lb]) (.inl (by rw [lb]))
      (fun _ loads => (loads.draws draws).1) rests⟩
  | hasIn =>
    obtain ⟨⟨b, req⟩, done, ⟨⟩⟩ := bind_ok.mp taken
    unfold xhasIn at done
    split at done
    · obtain ⟨⟨b', d⟩, looked, ⟨⟩⟩ := bind_ok.mp done
      have lb := (loads.hasIn looked).2
      exact ⟨sent, kept, stage.change (by rw [lb]) (.inl (by rw [lb]))
        fun _ loads => (loads.hasIn looked).1⟩
    · cases done
      exact ⟨sent, books, stage⟩
  | hasOut =>
    obtain ⟨⟨b, req⟩, done, ⟨⟩⟩ := bind_ok.mp taken
    unfold xhasOut at done
    split at done
    · cases done
      exact ⟨sent, books, stage⟩
    · obtain ⟨⟨b', d⟩, looked, ⟨⟩⟩ := bind_ok.mp done
      obtain ⟨-, more, dropping⟩ := loads.hasOut looked
      exact ⟨sent, kept, stage.change more (.inl dropping)
        fun _ loads => (loads.hasOut looked).1⟩
  | correlate on | relaxed on =>
    cases taken
    exact ⟨sent, kept, stage.change rfl (.inl rfl) fun _ => id⟩
  | call p a =>
    obtain ⟨t, done, rfl⟩ := bind_return.mp taken
    obtain ⟨⟨-, member⟩, fair, aside, other, -, -, -, call⟩ := possible
    exact ⟨sent, kept, stage.change rfl (.inl rfl)
      fun _ loads => loads.call member fair aside other call done⟩
  | deliver p =>
    obtain ⟨⟨t, event⟩, done, taken⟩ := bind_ok.mp taken
    obtain ⟨req, reacts, rfl⟩ := bind_return.mp taken
    obtain ⟨⟨reads, writes⟩, waiting⟩ := possible
    obtain ⟨d, reacts, same⟩ := bind_ok.mp reacts
    have next {frames : List Msg} (loads : Loads s.toDealer sent frames) :=
      loads.deliver reads writes waiting careful done reacts
    obtain ⟨-, more, dropping⟩ := next loads
    split at same <;>
      · cases same
        exact ⟨sent, kept, stage.change more dropping
          fun _ loads => (next loads).1⟩
  | peer p a =>
    obtain ⟨t, done, rfl⟩ := bind_return.mp taken
    obtain ⟨fair, stays⟩ := possible
    exact ⟨sent, kept, stage.change rfl (.inl rfl)
      fun _ loads => loads.peer fair stays done⟩

theorem Stage.start (hwms : ι → End → Int) (requestId : UInt32) :
    (start hwms requestId).Books [] ∧ (start hwms requestId).Stage [] := by
  refine ⟨⟨nofun, nofun, .slnil⟩, .resting rfl rfl rfl rfl ⟨?_, [], ?_⟩⟩
  · exact (.of_taking (FairQueue.Inv.start hwms).serves)
  · exact Balancer.Inv.start hwms

/-- In every run in which no request loses its last frame and no removal loses the position of the
    current pipe in the middle of a request, the pipes carry whole requests behind their
    envelopes. -/
theorem careful_requests_are_framed (hwms : ι → End → Int) (requestId : UInt32) {s : Client ι}
    (reached : Reaches step Careful (start hwms requestId) s) : s.WellFramed := by
  obtain ⟨sent, books, stage⟩ : ∃ sent, s.Books sent ∧ s.Stage sent :=
    reached.invariant (P := fun s => ∃ sent, s.Books sent ∧ s.Stage sent)
      ⟨[], Stage.start hwms requestId⟩
      fun _ _ _ ⟨_, books, stage⟩ careful taken => stage.step books careful taken
  exact wellFramed books stage

theorem careful_requests_are_framed_after_leave :
    ∃ s : Client (Fin 2), Reaches step Careful (start (fun _ _ => 5) 7) s ∧
      ((s.pair 0).queue .second 0).map Upipe.flushed =
        some [idFrame 8, bottom, { flags := MsgFlag.more, data := [1] }, { data := [2] }] ∧
      ((s.pair 1).queue .second 0).map Upipe.flushed = some [bottom, { data := [3] }] ∧
      s.WellFramed :=
  exists_run_and₂
    [.attach 0, .attach 1, .correlate true, .send { flags := MsgFlag.more, data := [1] } true true,
      .send { data := [2] } true true, .peer 0 (.write (idFrame 8) true),
      .peer 0 (.write bottom true), .peer 0 (.write { data := [9] } true), .peer 0 .flush,
      .deliver 0, .recv, .correlate false, .peer 0 (.terminate false true), .deliver 0,
      .send { data := [3] } true true]
    (by decide +kernel) fun _ reached _ _ => careful_requests_are_framed _ _ reached

/-- The pipe with the first frame of a request closes. The last frame is lost and the user
    does not hear of it; `req_t` still thinks that it is in the middle of a request, and
    the next one goes out without an envelope. -/
theorem lost_frame_strips_envelope :
    ∃ s : Client (Fin 2), Reaches step Possible (start (fun _ _ => 5) 7) s ∧
      ((s.pair 1).queue .second 0).map Upipe.flushed = some [{ data := [3] }] ∧
      s.requests = [⟨none, [{ flags := MsgFlag.more, data := [1] }, { data := [2] }]⟩,
        ⟨none, [{ data := [3] }]⟩] ∧ ¬ s.WellFramed := by
  refine exists_run_and₂
    [.attach 0, .attach 1, .send { flags := MsgFlag.more, data := [1] } true true,
      .peer 0 (.terminate false true), .deliver 0, .send { data := [2] } true true,
      .send { data := [3] } true true]
    (by decide +kernel) fun s _ flushed requests framed => ?_
  obtain ⟨-, sent, sublist, all⟩ := framed
  have together := Balancer.message_of_frame (m := { data := [3] }) flushed
    (congrArg (List.map Request.message) requests)
    (fun q found => all 1 0 q found ▸ Balancer.routed_whole sublist 1) (by decide)
  exact absurd together (by decide)

end Client

end Req

end Zmq
