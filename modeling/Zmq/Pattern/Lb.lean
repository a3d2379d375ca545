import Zmq.Pattern.Rota
import Zmq.Pipe.Stream
import Zmq.Pipe.Termination

/-! # The load balancer

`lb_t` hands every message of its socket to one of the socket's pipes. A message is
handed over frame by frame, and between two frames anything can happen to the pipes. The
pipe that has the first frames is known by its position only. Removing another pipe can
make that position wrong: the rest of the message then goes elsewhere.
-/

namespace Zmq

open Lib Function

structure Lb (ι : Type) extends Rota ι where
  more : Bool
  dropping : Bool

namespace Lb

variable {ι : Type} [DecidableEq ι] {n : Nat}

def empty : Lb ι := { Rota.empty with more := false, dropping := false }

inductive Sent (ι : Type) where
  /-- 0, with the pipe the frame went to. -/
  | sent (pipe : ι)
  | dropped
  | again
  | aborted
  deriving DecidableEq

inductive Attempt (ι : Type) where
  | written (pipe : ι)
  | full
  | aborted

def attach (lb : Lb ι) (pipe : ι) : Except Fault (Lb ι) := do
  let r ← lb.toRota.attach pipe
  .ok { lb with toRota := r }

def activated (lb : Lb ι) (pipe : ι) : Except Fault (Lb ι) := do
  let r ← lb.toRota.activated pipe
  .ok { lb with toRota := r }

def pipeTerminated (lb : Lb ι) (pipe : ι) : Except Fault (Lb ι) := do
  let r ← lb.toRota.pipeTerminated pipe
  .ok
    { toRota := r
      more := lb.more
      dropping := (lb.pipes.index pipe == lb.current && lb.more) || lb.dropping }

/-- Take the current pipe off the active ones, as `sendpipe` does it. -/
def skip (lb : Lb ι) : Except Fault (Lb ι) :=
  if lb.current < lb.active - 1 then do
    let pipes ← lb.pipes.swap lb.current (lb.active - 1)
    .ok { lb with pipes := pipes, active := lb.active - 1 }
  else .ok { lb with active := lb.active - 1, current := 0 }

/-- The loop of `sendpipe`; the number is `_active`. -/
def tryPipes (msg : Msg) (tryLock : Bool) : Nat → Lb ι → (ι → Pair) →
    Except Fault (Attempt ι × Lb ι × (ι → Pair))
  | 0, lb, pair => .ok (.full, lb, pair)
  | n + 1, lb, pair => do
      let pipe ← lb.currentPipe
      let (written, s) ← (pair pipe).write .first msg tryLock
      if written then .ok (.written pipe, lb, update pair pipe s)
      else if lb.more then do
        let s ← s.rollback .first
        .ok (.aborted, { lb with more := false, dropping := msg.more }, update pair pipe s)
      else do
        let lb ← lb.skip
        tryPipes msg tryLock n lb (update pair pipe s)

/-- The end of `sendpipe`, for a frame that was written. -/
def advance (lb : Lb ι) (pair : ι → Pair) (pipe : ι) (msg : Msg) :
    Except Fault (Lb ι × (ι → Pair)) :=
  if msg.more then .ok ({ lb with more := true }, pair)
  else do
    let s ← (pair pipe).flush .first
    .ok
      ({ lb with more := false, current := if lb.active ≤ lb.current + 1 then 0 else lb.current + 1 },
        update pair pipe s)

def sendpipe (lb : Lb ι) (pair : ι → Pair) (msg : Msg) (tryLock : Bool) :
    Except Fault (Sent ι × Lb ι × (ι → Pair)) :=
  if lb.dropping then
    .ok (.dropped, { lb with more := msg.more, dropping := msg.more }, pair)
  else do
    let (attempt, lb, pair) ← tryPipes msg tryLock lb.active lb pair
    match attempt with
    | .full => .ok (.again, lb, pair)
    | .aborted => .ok (.aborted, lb, pair)
    | .written pipe => do
        let (lb, pair) ← lb.advance pair pipe msg
        .ok (.sent pipe, lb, pair)

/-- The loop of `has_out`; the number is `_active`. -/
def anyWritable : Nat → Lb ι → (ι → Pair) → Except Fault (Bool × Lb ι × (ι → Pair))
  | 0, lb, pair => .ok (false, lb, pair)
  | n + 1, lb, pair => do
      let pipe ← lb.currentPipe
      let (writable, s) := (pair pipe).checkWrite .first
      if writable then .ok (true, lb, update pair pipe s)
      else do
        let r ← lb.toRota.retire lb.current
        anyWritable n { lb with toRota := r } (update pair pipe s)

def hasOut (lb : Lb ι) (pair : ι → Pair) : Except Fault (Bool × Lb ι × (ι → Pair)) :=
  if lb.more then .ok (true, lb, pair) else anyWritable lb.active lb pair

/-! ## The loops -/

/-- What is known of every pipe: the frames handed to its reader and the frames of an
    unfinished message behind them. -/
def Carrying (sent begun : ι → List Msg) (i : ι) (s : Pair) : Prop :=
  s.Conveys .first (sent i) (begun i)

variable {lb lb' : Lb ι} {pair pair' : ι → Pair} {sent begun : ι → List Msg} {msg : Msg} {p : ι}
  {t : Pair} {lock : Bool} {attempt : Attempt ι}

theorem skip_ok (ok : lb.toRota.Ok) (done : lb.skip = .ok lb') :
    lb'.toRota.Ok ∧ (∀ i ∈ lb'.pipes.items, i ∈ lb.pipes.items) ∧ lb'.active = lb.active - 1 ∧
      lb'.more = lb.more ∧ lb'.dropping = lb.dropping := by
  have := ok.le
  unfold skip at done
  split at done
  · obtain ⟨pipes, swapped, rfl⟩ := bind_return.mp done
    have := ArrayT.length_swap swapped
    exact ⟨⟨by simp only; omega, .inl (by assumption)⟩,
      fun i => (ArrayT.mem_swap swapped).mp, rfl, rfl, rfl⟩
  · cases done
    refine ⟨⟨by simp only; omega, ?_⟩, fun _ => id, rfl, rfl, rfl⟩
    simp only [and_true]
    omega

/-- A run of the loop of `sendpipe`. In the middle of a message it does not go round. -/
inductive Tries (msg : Msg) :
    Lb ι → (ι → Pair) → Attempt ι → Lb ι → (ι → Pair) → Prop where
  | full {lb : Lb ι} {pair : ι → Pair} : lb.active = 0 → Tries msg lb pair .full lb pair
  | written {lb : Lb ι} {pair : ι → Pair} {p : ι} {t : Pair} : lb.turn p →
      (pair p).Writing .first msg true t →
      Tries msg lb pair (.written p) lb (update pair p t)
  | aborted {lb : Lb ι} {pair : ι → Pair} {p : ι} {t v : Pair} : lb.more = true → lb.turn p →
      (pair p).Writing .first msg false t → t.RollingBack .first v →
      Tries msg lb pair .aborted { lb with more := false, dropping := msg.more }
        (update pair p v)
  | skipped {lb lb₁ lb' : Lb ι} {pair pair' : ι → Pair} {p : ι} {t : Pair} {attempt : Attempt ι} :
      lb.more = false → lb.turn p → (pair p).Writing .first msg false t → lb.skip = .ok lb₁ →
      Tries msg lb₁ (update pair p t) attempt lb' pair' →
      Tries msg lb pair attempt lb' pair'

abbrev Runs (lb : Lb ι) (pair : ι → Pair) : Prop := lb.Serves pair fun _ s => s.Sound

omit [DecidableEq ι] in
theorem Runs.of_carrying (serves : lb.Serves pair (Carrying sent begun)) : lb.Runs pair :=
  ⟨serves.ok, serves.stays, fun i => (serves.holds i).sound⟩

theorem refuse {P : ι → Pair → Prop} (serves : lb.Serves pair P)
    (writing : (pair p).Writing .first msg false t) (own : P p t) :
    lb.Serves (update pair p t) P := by
  refine serves.use (fun member => ?_) own fun _ _ => id
  cases writing <;> simpa using serves.stays p member

theorem tryPipes_tries (enough : lb.active = n) (runs : lb.Runs pair)
    (done : tryPipes msg lock n lb pair = .ok (attempt, lb', pair')) :
    Tries msg lb pair attempt lb' pair' := by
  induction n generalizing lb pair with
  | zero =>
    cases done
    exact .full enough
  | succ n ih =>
    obtain ⟨p, here, done⟩ := bind_ok.mp done
    have turn : lb.turn p :=
      ⟨runs.ok.within_of_pos (by omega), Rota.currentPipe_ok.mp here⟩
    have member := Rota.mem_of_turn turn
    obtain ⟨b, t, ends, writing⟩ := (runs.holds p).write (runs.stays p member) msg lock
    rw [ends, ok_bind] at done
    cases b with
    | true =>
      obtain ⟨rfl, rfl, rfl⟩ := done
      exact .written turn writing
    | false =>
      simp only [Bool.false_eq_true, if_false] at done
      split at done
      · rename_i more
        obtain ⟨v, rolled, ⟨⟩⟩ := bind_ok.mp done
        obtain ⟨v', ends', rolling⟩ := (writing.sound (runs.holds p)).rollback (e := .first)
        obtain rfl : v' = v := by simpa [ends'] using rolled
        exact .aborted more turn writing rolling
      · rename_i idle
        obtain ⟨lb₁, skipped, done⟩ := bind_ok.mp done
        obtain ⟨ok, members, active, more, dropping⟩ := skip_ok runs.ok skipped
        exact .skipped (by simpa using idle) turn writing skipped
          (ih (by omega) ((refuse runs writing (writing.sound (runs.holds p))).move ok members) done)

/-- `P` is what holds for each pipe, before and after the pipes that were full. -/
inductive Tried (P : ι → Pair → Prop) (msg : Msg) (lb : Lb ι) :
    Attempt ι → Lb ι → (ι → Pair) → Prop where
  | full {lb' : Lb ι} {pair' : ι → Pair} : (lb.more = true → lb.active = 0) →
      lb'.more = lb.more → lb'.dropping = lb.dropping → lb'.Serves pair' P →
      Tried P msg lb .full lb' pair'
  | written {lb' : Lb ι} {pair' : ι → Pair} {p : ι} {t : Pair} :
      (lb.more = true → lb.turn p) → lb'.dropping = lb.dropping → lb'.turn p →
      lb'.Serves pair' P → (pair' p).Writing .first msg true t →
      Tried P msg lb (.written p) lb' (update pair' p t)
  | aborted {pair' : ι → Pair} {p : ι} {t : Pair} : lb.more = true → lb.turn p →
      lb.Serves pair' P → (pair' p).RollingBack .first t →
      Tried P msg lb .aborted { lb with more := false, dropping := msg.more } (update pair' p t)

theorem Tries.tried {P : ι → Pair → Prop} (tries : Tries msg lb pair attempt lb' pair')
    (serves : lb.Serves pair P) (keeps : ∀ i s t, (s.pipe .first).deleted = false →
      s.Writing .first msg false t → P i s → P i t) : Tried P msg lb attempt lb' pair' := by
  induction tries with
  | full none_left => exact .full (fun _ => none_left) rfl rfl serves
  | written turn writing => exact .written (fun _ => turn) rfl turn serves writing
  | @aborted lb pair p t v more turn writing rolling =>
    rw [← update_idem t]
    refine .aborted more turn (refuse serves writing ?_) (by rwa [update_self])
    exact keeps p _ _ (serves.at_turn turn) writing (serves.holds p)
  | @skipped lb lb₁ lb' pair pair' p t attempt idle turn writing skipped _ ih =>
    obtain ⟨ok, members, active, more, dropping⟩ := skip_ok serves.ok skipped
    have own := keeps p _ _ (serves.at_turn turn) writing (serves.holds p)
    cases ih ((refuse serves writing own).move ok members) with
    | full _ more' dropping' serves =>
      exact .full (by simp [idle]) (more'.trans more) (dropping'.trans dropping) serves
    | written _ dropping' turn serves writing =>
      exact .written (by simp [idle]) (dropping'.trans dropping) turn serves writing
    | aborted more' => simp [more, idle] at more'

theorem tryPipes_tried (serves : lb.Serves pair (Carrying sent begun))
    (done : tryPipes msg lock lb.active lb pair = .ok (attempt, lb', pair')) :
    Tried (Carrying sent begun) msg lb attempt lb' pair' :=
  (tryPipes_tries rfl (.of_carrying serves) done).tried serves
    fun _ _ _ stays writing conveys =>
      ⟨conveys.toLogged.refused stays writing, conveys.handed.refused writing⟩

omit [DecidableEq ι] in
theorem idle_of_pos (inside : lb.more = true → 0 < lb.active)
    (left : lb.more = true → lb.active = 0) : lb.more = false := by
  by_contra more
  have more : lb.more = true := by simpa using more
  have := inside more
  have := left more
  omega

inductive Flagged (msg : Msg) (lb : Lb ι) : Sent ι → Lb ι → Prop where
  | sent {lb' : Lb ι} {p : ι} : lb.dropping = false → lb'.dropping = false →
      lb'.more = msg.more → Flagged msg lb (.sent p) lb'
  | dropped {lb' : Lb ι} : lb.dropping = true → lb'.dropping = msg.more →
      lb'.more = msg.more → Flagged msg lb .dropped lb'
  | again {lb' : Lb ι} : lb.dropping = false → lb.more = false → lb'.dropping = false →
      lb'.more = false → Flagged msg lb .again lb'
  | aborted {lb' : Lb ι} : lb.dropping = false → lb.more = true → lb'.dropping = msg.more →
      lb'.more = false → Flagged msg lb .aborted lb'

theorem sendpipe_flagged {result : Sent ι} (serves : lb.Serves pair (Carrying sent begun))
    (inside : lb.dropping = false → lb.more = true → 0 < lb.active)
    (done : lb.sendpipe pair msg lock = .ok (result, lb', pair')) : Flagged msg lb result lb' := by
  unfold sendpipe at done
  split at done
  · rename_i dropping
    cases done
    exact .dropped dropping rfl rfl
  · rename_i kept
    have kept : lb.dropping = false := by simpa using kept
    obtain ⟨⟨attempt, lb₁, pair₁⟩, tried, done⟩ := bind_ok.mp done
    cases tryPipes_tried serves tried with
    | full left more dropping =>
      cases done
      have idle := idle_of_pos (inside kept) left
      exact .again kept idle (dropping.trans kept) (more.trans idle)
    | written was dropping =>
      obtain ⟨⟨lb₂, pair₂⟩, advanced, ⟨⟩⟩ := bind_ok.mp done
      unfold advance at advanced
      split at advanced
      · rename_i more
        cases advanced
        exact .sent kept (dropping.trans kept) more.symm
      · rename_i last
        obtain ⟨v, -, ⟨⟩⟩ := bind_ok.mp advanced
        exact .sent kept (dropping.trans kept) (by simpa using last)
    | aborted midway =>
      cases done
      exact .aborted kept midway rfl rfl

theorem anyWritable_uses {P : ι → Pair → Prop} {b : Bool} (enough : lb.active = n)
    (serves : lb.Serves pair P) (keeps : ∀ i s t, (s.pipe .first).deleted = false →
      s.Outcome .first .checkWrite t → P i s → P i t)
    (done : anyWritable n lb pair = .ok (b, lb', pair')) : lb'.Serves pair' P ∧
      Uses (· = .checkWrite) pair pair' ∧ lb'.more = lb.more ∧ lb'.dropping = lb.dropping := by
  induction n generalizing lb pair with
  | zero =>
    obtain ⟨-, rfl, rfl⟩ : false = b ∧ lb = lb' ∧ pair = pair' := by
      simpa [anyWritable] using done
    exact ⟨serves, .nothing, rfl, rfl⟩
  | succ n ih =>
    obtain ⟨p, here, done⟩ := bind_ok.mp done
    have stays := serves.at_turn
      (show lb.turn p from ⟨serves.ok.within_of_pos (by omega), Rota.currentPipe_ok.mp here⟩)
    have outcome := (pair p).checkWrite_outcome .first
    have serves' : lb.Serves (update pair p ((pair p).checkWrite .first).2) P :=
      serves.use (fun _ => (outcome.deleted nofun).trans stays)
        (keeps p _ _ stays outcome (serves.holds p)) fun _ _ => id
    simp only at done
    split at done
    · obtain ⟨-, rfl, rfl⟩ : true = b ∧ lb = lb' ∧ _ = pair' := by simpa using done
      exact ⟨serves', .call rfl stays outcome .nothing, rfl, rfl⟩
    · obtain ⟨r, retired, done⟩ := bind_ok.mp done
      have active : r.active = lb.active - 1 := by
        obtain ⟨pipes, -, rfl⟩ := Rota.retire_eq retired
        rfl
      have next : r.Serves (update pair p ((pair p).checkWrite .first).2) P :=
        serves'.move (serves.ok.retire retired) fun i => (Rota.mem_retire retired).mp
      obtain ⟨serves, uses, flags⟩ := ih (by simp only; omega) next done
      exact ⟨serves, .call rfl stays outcome uses, flags⟩

end Lb

/-- A load balancer with its pipes, whose first ends it writes to. `begun` and
    `finished` are what its caller has handed over: the frames of a message that is not
    complete, and the complete messages. -/
structure Balancer (ι : Type) where
  lb : Lb ι
  pair : ι → Pair
  begun : List Msg
  finished : List (List Msg)

namespace Balancer

variable {ι : Type} [DecidableEq ι] {pair : ι → Pair} {a : Zmq.Action} {m : Msg}

def start (hwms : ι → End → Int) : Balancer ι where
  lb := .empty
  pair i := .attached (hwms i) fun _ => false
  begun := []
  finished := []

variable (s : Balancer ι)

def handed (msg : Msg) : Balancer ι :=
  if msg.more then { s with begun := s.begun ++ [msg] }
  else { s with begun := [], finished := s.finished ++ [s.begun ++ [msg]] }

/-- What the caller makes of the result of `sendpipe`: after -1 it has to come back with
    the same frame, after -2 it gives the message up. -/
def answered (msg : Msg) : Lb.Sent ι → Balancer ι
  | .sent _ | .dropped => s.handed msg
  | .again => s
  | .aborted => { s with begun := [] }

inductive Action (ι : Type) where
  | attach (pipe : ι)
  | sendpipe (msg : Msg) (tryLock : Bool)
  | hasOut
  /-- Another call of the socket on its end of a pipe. -/
  | call (pipe : ι) (a : Zmq.Action)
  /-- A command for the socket's end. -/
  | deliver (pipe : ι)
  /-- Anything the other end does. -/
  | peer (pipe : ι) (a : Zmq.Action)

def react (lb : Lb ι) (pipe : ι) : Option Event → Except Fault (Lb ι)
  | some .writeActivated => lb.activated pipe
  | some .pipeTerminated => lb.pipeTerminated pipe
  | _ => .ok lb

def step (s : Balancer ι) : Action ι → Except Fault (Balancer ι)
  | .attach pipe => do
      let lb ← s.lb.attach pipe
      .ok { s with lb := lb }
  | .sendpipe msg tryLock => do
      let (sent, lb, pair) ← s.lb.sendpipe s.pair msg tryLock
      .ok (answered { s with lb := lb, pair := pair } msg sent)
  | .hasOut => do
      let (_, lb, pair) ← s.lb.hasOut s.pair
      .ok { s with lb := lb, pair := pair }
  | .call pipe a => do
      let t ← (s.pair pipe).step (.first, a)
      .ok { s with pair := update s.pair pipe t }
  | .deliver pipe => do
      let (t, event) ← (s.pair pipe).deliver .first
      let lb ← react s.lb pipe event
      .ok { s with lb := lb, pair := update s.pair pipe t }
  | .peer pipe a => do
      let t ← (s.pair pipe).step (.second, a)
      .ok { s with pair := update s.pair pipe t }

/-- The socket attaches a pipe once and writes to it through the load balancer only.
    Nobody renews a queue the load balancer writes to. -/
def Allowed : Action ι → Prop
  | .attach pipe => ((s.pair pipe).pipe .first).deleted = false
  | .sendpipe msg _ => msg.isDelimiter = false
  | .hasOut => True
  | .call pipe a => pipe ∈ s.lb.pipes.items ∧ (s.pair pipe).Considerate (.first, a) ∧
      a.aside = true ∧ a ≠ .checkWrite ∧ a ≠ .deliver
  | .deliver pipe => pipe ∈ s.lb.pipes.items ∧ (s.pair pipe).mailbox .first ≠ []
  | .peer pipe a => (s.pair pipe).Considerate (.second, a) ∧ a ≠ .hiccup

def leaving (pipe : ι) : Prop :=
  ((s.pair pipe).mailbox .first).head? = some .pipeTermAck
  deriving Decidable

def Steady (a : Action ι) : Prop :=
  s.Allowed a ∧ match a with
    | .deliver pipe => s.leaving pipe → s.lb.more = true → s.lb.dropping = false →
        ¬ s.lb.displaces pipe
    | _ => True

instance : DecidablePred s.Allowed := fun a => by
  cases a <;> dsimp only [Allowed] <;> infer_instance

instance (a : Action ι) : Decidable (s.Steady a) := by
  cases a <;> dsimp only [Steady] <;> infer_instance

/-! ## Whole messages -/

/-- Every frame but the last announces another one. -/
def IsMessage (frames : List Msg) : Prop :=
  ∃ rest last, frames = rest ++ [last] ∧ (∀ m ∈ rest, m.more = true) ∧ last.more = false

def routed (sent : List (ι × List Msg)) (i : ι) : List Msg :=
  (sent.filter (·.1 = i)).flatMap (·.2)

/-- What was flushed on the pipes is some of the caller's messages, in order, each of
    them on one pipe and with all its frames. -/
def Whole : Prop :=
  (∀ message ∈ s.finished, IsMessage message) ∧
    ∃ sent : List (ι × List Msg), (sent.map Prod.snd).Sublist s.finished ∧
      ∀ i k q, (s.pair i).queue .second k = some q → q.flushed = routed sent i

def owes (i : ι) : Prop :=
  s.lb.dropping = false ∧ s.lb.more = true ∧ s.lb.turn i

instance (i : ι) : Decidable (s.owes i) :=
  inferInstanceAs (Decidable (_ ∧ _))

def pending (i : ι) : List Msg := if s.owes i then s.begun else []

structure Frames (s : Balancer ι) : Prop where
  begun : ∀ m ∈ s.begun, m.isDelimiter = false ∧ m.more = true
  finished : ∀ message ∈ s.finished, IsMessage message

structure Inv (s : Balancer ι) (sent : List (ι × List Msg)) : Prop where
  serves : s.lb.Serves s.pair (Lb.Carrying (routed sent) s.pending)
  idle : s.lb.dropping = false → s.lb.more = false → s.begun = []
  inside : s.lb.dropping = false → s.lb.more = true → ∃ i, s.lb.turn i
  ready : ∀ i, s.owes i → ((s.pair i).pipe .first).state = .active →
    ((s.pair i).pipe .first).outActive = true
  frames : s.Frames
  sublist : (sent.map Prod.snd).Sublist s.finished

variable {s : Balancer ι} {sent : List (ι × List Msg)} {i p : ι} {t : Pair} {lb : Lb ι} {msg : Msg}
  {lock : Bool}

theorem routed_append (frames : List Msg) (i : ι) :
    routed (sent ++ [(p, frames)]) i = routed sent i ++ if p = i then frames else [] := by
  by_cases same : p = i <;> simp [routed, same]

section

variable (s : Balancer ι)

omit [DecidableEq ι]

@[simp] theorem handed_lb (msg : Msg) : (s.handed msg).lb = s.lb := by
  unfold handed; split <;> rfl

@[simp] theorem handed_pair (msg : Msg) : (s.handed msg).pair = s.pair := by
  unfold handed; split <;> rfl

theorem handed_sublist (msg : Msg) : s.finished.Sublist (s.handed msg).finished := by
  unfold handed
  split
  · exact List.Sublist.refl _
  · exact List.sublist_append_left _ _

variable {s}

theorem Frames.handed (frames : s.Frames) (data : msg.isDelimiter = false) :
    (s.handed msg).Frames := by
  unfold Balancer.handed
  split
  · rename_i more
    exact ⟨forall_mem_concat frames.begun ⟨data, more⟩, frames.finished⟩
  · rename_i last
    refine ⟨nofun, forall_mem_concat frames.finished ?_⟩
    exact ⟨s.begun, msg, rfl, fun m there => (frames.begun m there).2, by simpa using last⟩

end

def routes (s : Balancer ι) (sent : List (ι × List Msg)) (msg : Msg) :
    Lb.Sent ι → List (ι × List Msg)
  | .sent pipe => if msg.more then sent else sent ++ [(pipe, s.begun ++ [msg])]
  | .dropped | .again | .aborted => sent

namespace Inv

theorem whole (inv : s.Inv sent) : s.Whole :=
  ⟨inv.frames.finished, sent, inv.sublist,
    fun i _ _ found => (inv.serves.holds i).flushed found⟩

theorem pending_of_nobody (nobody : ∀ i, ¬ s.owes i) : s.pending = fun _ => [] :=
  funext fun i => if_neg (nobody i)

theorem free (quiet : s.lb.more = true → s.lb.dropping = true)
    (begun : s.lb.dropping = false → s.begun = [])
    (serves : s.lb.Serves s.pair (Lb.Carrying (routed sent) fun _ => [])) (frames : s.Frames)
    (sublist : (sent.map Prod.snd).Sublist s.finished) : s.Inv sent := by
  have nobody (i : ι) : ¬ s.owes i := by
    rintro ⟨kept, midway, -⟩
    simp [quiet midway] at kept
  refine ⟨by rwa [pending_of_nobody nobody], fun kept _ => begun kept, fun kept midway => ?_,
    fun i owes => absurd owes (nobody i), frames, sublist⟩
  simp [quiet midway] at kept

theorem start (hwms : ι → End → Int) : (start hwms).Inv [] :=
  free nofun (fun _ => rfl)
    { ok := ⟨Nat.le_refl _, .inr ⟨rfl, rfl⟩⟩
      stays := nofun
      holds := fun i => ⟨.attached (hwms i), .attached (hwms i)⟩ }
    ⟨nofun, nofun⟩ (List.Sublist.refl _)

theorem pipe (inv : s.Inv sent) (stays : i ∈ s.lb.pipes.items → (t.pipe .first).deleted = false)
    (conveys : t.Conveys .first (routed sent i) (s.pending i))
    (ready : s.owes i → (t.pipe .first).state = .active → (t.pipe .first).outActive = true) :
    Inv { s with pair := update s.pair i t } sent where
  serves := inv.serves.use stays conveys fun _ _ => id
  idle := inv.idle
  inside := inv.inside
  ready j owes := by
    by_cases same : j = i
    · subst same
      simpa using ready owes
    · simpa [update_of_ne same] using inv.ready j owes
  frames := ⟨inv.frames.begun, inv.frames.finished⟩
  sublist := inv.sublist

theorem move (inv : s.Inv sent) (more : lb.more = s.lb.more) (dropping : lb.dropping = s.lb.dropping)
    (ok : lb.toRota.Ok) (stays : ∀ j ∈ lb.pipes.items, ((s.pair j).pipe .first).deleted = false)
    (turn : ∀ j, s.owes j → lb.turn j) : Inv { s with lb := lb } sent := by
  have same (j : ι) : Balancer.owes { s with lb := lb } j ↔ s.owes j := by
    constructor
    · rintro ⟨kept, midway, there⟩
      rw [dropping] at kept
      rw [more] at midway
      obtain ⟨q, here⟩ := inv.inside kept midway
      obtain rfl := Rota.turn_unique there (turn q ⟨kept, midway, here⟩)
      exact ⟨kept, midway, here⟩
    · intro owes
      exact ⟨dropping.trans owes.1, more.trans owes.2.1, turn j owes⟩
  have pending : Balancer.pending { s with lb := lb } = s.pending := by
    funext j
    simp only [Balancer.pending, same]
  refine ⟨⟨ok, stays, fun j => ?_⟩, ?_, ?_, fun j owes => inv.ready j ((same j).mp owes),
    ⟨inv.frames.begun, inv.frames.finished⟩, inv.sublist⟩
  · rw [pending]
    exact inv.serves.holds j
  · rw [dropping, more]
    exact inv.idle
  · intro kept midway
    rw [dropping] at kept
    rw [more] at midway
    obtain ⟨q, here⟩ := inv.inside kept midway
    exact ⟨q, turn q ⟨kept, midway, here⟩⟩

theorem terminated (inv : s.Inv sent) (member : i ∈ s.lb.pipes.items)
    (closed : ((s.pair i).pipe .first).state ≠ .active) (done : s.lb.pipeTerminated i = .ok lb)
    (placed : s.lb.more = true → s.lb.dropping = false → ¬ s.lb.displaces i) :
    Inv { s with lb := lb } sent ∧ i ∉ lb.pipes.items := by
  obtain ⟨r, removed, rfl⟩ := bind_return.mp done
  have members := fun j => Rota.mem_pipeTerminated member removed (q := j)
  refine ⟨?_, fun still => ((members i).mp still).2 rfl⟩
  have ok := inv.serves.ok.pipeTerminated member removed
  have stays : ∀ j ∈ r.pipes.items, ((s.pair j).pipe .first).deleted = false :=
    fun j there => inv.serves.stays j ((members j).mp there).1
  by_cases owed : s.owes i
  · -- The rest of the message is dropped.
    obtain ⟨kept, midway, turn⟩ := owed
    have here : s.lb.pipes.index i = s.lb.current := s.lb.pipes.indexed _ _ turn.2
    have dropping : (s.lb.pipes.index i == s.lb.current && s.lb.more || s.lb.dropping) = true := by
      simp [here, midway]
    refine free (fun _ => dropping) (by simp [dropping]) ⟨ok, stays, fun j => ?_⟩
      ⟨inv.frames.begun, inv.frames.finished⟩ inv.sublist
    by_cases same : j = i
    · subst same
      exact (inv.serves.holds j).of_closed closed
    · have nothing : s.pending j = [] :=
        if_neg fun owes => same (Rota.turn_unique owes.2.2 turn)
      have conveys := inv.serves.holds j
      rwa [Lb.Carrying, nothing] at conveys
  · refine inv.move rfl ?_ ok stays fun j owes => ?_
    · by_cases kept : s.lb.dropping = false
      · have elsewhere : s.lb.more = true → s.lb.pipes.index i ≠ s.lb.current := by
          intro midway same
          obtain ⟨q, turn⟩ := inv.inside kept midway
          have there := s.lb.pipes.at_index member
          rw [same] at there
          obtain rfl : q = i := Option.some.inj (turn.2.symm.trans there)
          exact owed ⟨kept, midway, turn⟩
        cases midway : s.lb.more with
        | false => simp
        | true => simp [elsewhere midway]
      · simp [show s.lb.dropping = true by simpa using kept]
    · refine Rota.turn_pipeTerminated inv.serves.ok member removed owes.2.2 ?_
        (placed owes.2.1 owes.1)
      rintro rfl
      exact owed owes

theorem pending_of_turn (inv : s.Inv sent) (kept : s.lb.dropping = false)
    (turn : s.lb.more = true → s.lb.turn p) : s.pending p = s.begun := by
  cases midway : s.lb.more with
  | true => exact if_pos ⟨kept, midway, turn midway⟩
  | false => simp [pending, inv.idle kept midway]

theorem pending_of_ne (turn : s.lb.more = true → s.lb.turn p) (other : i ≠ p) : s.pending i = [] :=
  if_neg fun owes => other (Rota.turn_unique owes.2.2 (turn owes.2.1))

section

variable (inv : s.Inv sent)
include inv

theorem written (data : msg.isDelimiter = false) (kept : s.lb.dropping = false)
    (was : s.lb.more = true → s.lb.turn p) {pair' : ι → Pair} {lb' : Lb ι}
    (dropping : lb.dropping = s.lb.dropping) (turn : lb.turn p)
    (serves : lb.Serves pair (Lb.Carrying (routed sent) s.pending))
    (writing : (pair p).Writing .first msg true t)
    (done : lb.advance (update pair p t) p msg = .ok (lb', pair')) :
    Inv (Balancer.handed { s with lb := lb', pair := pair' } msg)
      (s.routes sent msg (.sent p)) := by
  have stays := serves.at_turn turn
  have conveys := serves.holds p
  rw [Lb.Carrying, inv.pending_of_turn kept was] at conveys
  have deleted : (t.pipe .first).deleted = false := by
    cases writing
    simpa using stays
  have frames : Frames { s with lb := lb', pair := pair' } :=
    ⟨inv.frames.begun, inv.frames.finished⟩
  have handed := frames.handed data
  unfold Lb.advance at done
  cases more : msg.more with
  | true =>
    simp only [more] at done
    obtain ⟨rfl, rfl⟩ := done
    simp only [Balancer.handed, routes, more, if_true] at handed ⊢
    have owes (i : ι) : Balancer.owes
        { lb := { lb with more := true }, pair := update pair p t,
          begun := s.begun ++ [msg], finished := s.finished } i ↔ i = p := by
      refine ⟨fun there => Rota.turn_unique there.2.2 turn, ?_⟩
      rintro rfl
      exact ⟨dropping.trans kept, rfl, turn⟩
    refine ⟨?_, nofun, fun _ _ => ⟨p, turn⟩, fun i there _ => ?_, handed, inv.sublist⟩
    · refine (serves.use (fun _ => deleted) ?_ fun i other conveys => ?_).move serves.ok fun _ => id
      · rw [Lb.Carrying, pending, if_pos ((owes p).mpr rfl)]
        exact ⟨conveys.toLogged.more stays writing more, conveys.handed.more writing more⟩
      · rw [Lb.Carrying, pending, if_neg fun there => other ((owes i).mp there)]
        rwa [Lb.Carrying, pending_of_ne was other] at conveys
    · rw [(owes i).mp there]
      cases writing
      simpa
  | false =>
    simp only [more] at done
    obtain ⟨v, ends, ⟨⟩⟩ := bind_ok.mp done
    simp only [Balancer.handed, routes, more, Bool.false_eq_true, if_false] at handed ⊢
    have flushing := (writing.sound conveys.sound).flushing (by rwa [update_self] at ends)
    refine free (by simp) (by simp) ?_ handed ?_
    · have ok : lb.toRota.Ok := serves.ok
      rw [update_idem]
      refine (serves.use (fun _ => ((Pair.Outcome.flush flushing).deleted nofun).trans deleted) ?_
        fun i other conveys => ?_).move
        ⟨ok.le, ?_⟩ fun _ => id
      · rw [Lb.Carrying, routed_append, if_pos rfl]
        have finished := conveys.finish stays writing more flushing
        have all_data : (s.begun ++ [msg]).filter (!·.isDelimiter) = s.begun ++ [msg] := by
          rw [List.filter_append, List.filter_eq_self.mpr fun m there => ?_]
          · simp [data]
          · simp [(inv.frames.begun m there).1]
        rwa [all_data] at finished
      · rw [Lb.Carrying, routed_append, if_neg fun same => other same.symm, List.append_nil]
        rwa [Lb.Carrying, pending_of_ne was other] at conveys
      · simp only
        split <;> omega
    · rw [List.map_append]
      exact inv.sublist.append (List.Sublist.refl _)

theorem pos (kept : s.lb.dropping = false) (midway : s.lb.more = true) : 0 < s.lb.active := by
  obtain ⟨q, turn⟩ := inv.inside kept midway
  exact Nat.zero_lt_of_lt turn.1

theorem sendpipe (data : msg.isDelimiter = false) {result : Lb.Sent ι}
    (done : s.lb.sendpipe s.pair msg lock = .ok (result, lb, pair)) :
    Inv (answered { s with lb := lb, pair := pair } msg result) (s.routes sent msg result) := by
  have frames : Frames { s with lb := lb, pair := pair } :=
    ⟨inv.frames.begun, inv.frames.finished⟩
  unfold Lb.sendpipe at done
  split at done
  · rename_i dropping
    cases done
    have serves := inv.serves
    rw [pending_of_nobody fun i owes => by simp [owes.1] at dropping] at serves
    change Inv (Balancer.handed _ msg) sent
    have longer := handed_sublist
      { s with lb := { s.lb with more := msg.more, dropping := msg.more } } msg
    refine free ?_ ?_ ?_ (frames.handed data) (inv.sublist.trans longer)
    · simp
    · intro last
      have last : msg.more = false := by simpa using last
      simp [handed, last]
    · simpa using serves.move serves.ok fun _ => id
  · rename_i kept
    have kept : s.lb.dropping = false := by simpa using kept
    obtain ⟨⟨attempt, lb₁, pair₁⟩, tried, done⟩ := bind_ok.mp done
    cases Lb.tryPipes_tried inv.serves tried with
    | full left more dropping serves =>
      cases done
      have idle := Lb.idle_of_pos (inv.pos kept) left
      have begun := inv.idle kept idle
      rw [pending_of_nobody fun i owes => by simp [owes.2.1] at idle] at serves
      exact free (by simp [answered, more, idle]) (fun _ => begun) serves frames inv.sublist
    | @written _ _ p t was dropping turn serves writing =>
      obtain ⟨⟨lb₂, pair₂⟩, advanced, ⟨⟩⟩ := bind_ok.mp done
      exact inv.written data kept was dropping turn serves writing advanced
    | @aborted _ p t midway turn serves rolling =>
      cases done
      have stays := serves.at_turn turn
      refine free nofun (fun _ => rfl) ?_ ⟨nofun, frames.finished⟩ inv.sublist
      refine (serves.use (fun _ => ((Pair.Outcome.rollback rolling).deleted nofun).trans stays)
        ⟨(serves.holds p).toLogged.rollback stays rolling, (serves.holds p).handed.rollback rolling⟩
        fun i other conveys => ?_).move
          serves.ok fun _ => id
      rwa [Lb.Carrying, pending_of_ne (fun _ => turn) other] at conveys

theorem hasOut {b : Bool} (done : s.lb.hasOut s.pair = .ok (b, lb, pair)) :
    Inv { s with lb := lb, pair := pair } sent := by
  unfold Lb.hasOut at done
  split at done
  · cases done
    exact inv
  · rename_i idle
    have idle : s.lb.more = false := by simpa using idle
    have serves := inv.serves
    rw [pending_of_nobody fun i owes => by simp [owes.2.1] at idle] at serves
    obtain ⟨serves, -, more, dropping⟩ := Lb.anyWritable_uses rfl serves
      (fun _ _ _ stays outcome conveys => conveys.writer (a := .checkWrite) stays outcome rfl) done
    refine free (by simp [more, idle]) (fun kept => inv.idle (dropping ▸ kept) idle) serves
      ⟨inv.frames.begun, inv.frames.finished⟩ inv.sublist

theorem attach (stays : ((s.pair i).pipe .first).deleted = false)
    (done : s.lb.attach i = .ok lb) : Inv { s with lb := lb } sent := by
  obtain ⟨r, attached, rfl⟩ := bind_return.mp done
  refine inv.move rfl rfl (inv.serves.ok.attach attached) (fun j member => ?_)
    fun j owes => Rota.turn_attach inv.serves.ok attached owes.2.2
  rcases (Rota.mem_attach attached).mp member with old | rfl
  · exact inv.serves.stays j old
  · exact stays

theorem activated (member : i ∈ s.lb.pipes.items) (other : ¬ s.owes i)
    (done : s.lb.activated i = .ok lb) : Inv { s with lb := lb } sent := by
  obtain ⟨r, woken, rfl⟩ := bind_return.mp done
  refine inv.move rfl rfl (inv.serves.ok.activated woken)
    (fun j there => inv.serves.stays j ((Rota.mem_activated woken).mp there)) fun j owes => ?_
  refine Rota.turn_activated woken member owes.2.2 ?_
  rintro rfl
  exact other owes

theorem deliver {event : Option Event} (member : i ∈ s.lb.pipes.items)
    (waiting : (s.pair i).mailbox .first ≠ [])
    (placed : s.leaving i → s.lb.more = true → s.lb.dropping = false → ¬ s.lb.displaces i)
    (done : (s.pair i).deliver .first = .ok (t, event)) (reacts : react s.lb i event = .ok lb) :
    Inv { s with lb := lb, pair := update s.pair i t } sent := by
  have conveys := inv.serves.holds i
  obtain ⟨c, rest, at_head, receiving, outcome⟩ := conveys.sound.receiving waiting done
  have conveys' := conveys.writer (a := .deliver) waiting outcome rfl
  have ready (owes : s.owes i) (active : (t.pipe .first).state = .active) :=
    outcome.outActive rfl nofun active (inv.ready i owes (outcome.active active))
  have stays := inv.serves.stays i member
  have dead (closed : ((s.pair i).pipe .first).state ≠ .active) :
      (t.pipe .first).state ≠ .active := fun active => closed (outcome.active active)
  cases receiving with
  | writeWoken asleep active =>
    have other : ¬ s.owes i := by
      intro owes
      rw [Pair.setMailbox_pipe, inv.ready i owes active] at asleep
      cases asleep
    exact (inv.pipe (fun _ => by simpa using stays) conveys' ready).activated member other reacts
  | leaves state | answersAndLeaves state =>
    have closed : ((s.pair i).pipe .first).state ≠ .active := by
      intro active
      simp [active] at state
    obtain ⟨next, gone⟩ := inv.terminated member closed reacts
      (placed (by simp [leaving, at_head]))
    exact next.pipe (fun still => absurd still gone) (conveys'.of_closed (dead closed))
      fun _ active => absurd active (dead closed)
  | readWoken | readIgnored | writeNoted | published | limited | waits | answers | crosses =>
    cases reacts
    exact inv.pipe (fun _ => by simpa [Pipe.setHwms] using stays) conveys' ready
  | replaced => exact absurd (by rw [at_head]; exact List.mem_cons_self) (conveys.calm _)

theorem call (stays : ((s.pair i).pipe .first).deleted = false)
    (outcome : (s.pair i).Outcome .first a t) (aside : a.aside = true) (other : a ≠ .checkWrite)
    (call : a ≠ .deliver) : Inv { s with pair := update s.pair i t } sent := by
  have can : (s.pair i).CanAct (.first, a) := by simpa [Pair.CanAct, call] using stays
  refine inv.pipe (fun _ => ?_) ((inv.serves.holds i).writer can outcome aside)
    fun owes active => ?_
  · rw [outcome.deleted call, stays]
  · exact outcome.outActive aside other active (inv.ready i owes (outcome.active active))

theorem peer (fair : (s.pair i).Considerate (.second, a)) (stays : a ≠ .hiccup)
    (outcome : (s.pair i).Outcome .second a t) : Inv { s with pair := update s.pair i t } sent := by
  have untouched : t.pipe .first = (s.pair i).pipe .first := outcome.pipe_peer
  have conveys := inv.serves.holds i
  refine inv.pipe (fun member => ?_)
    ⟨conveys.toLogged.reader fair.1 outcome stays, conveys.handed.reader outcome⟩ ?_
  · rw [untouched, inv.serves.stays i member]
  · rw [untouched]
    exact inv.ready i

theorem step {s' : Balancer ι} {a : Action ι} (steady : s.Steady a)
    (taken : s.step a = .ok s') : ∃ sent', s'.Inv sent' := by
  obtain ⟨allowed, placed⟩ := steady
  cases a with
  | attach i =>
    obtain ⟨lb, done, rfl⟩ := bind_return.mp taken
    exact ⟨sent, inv.attach allowed done⟩
  | sendpipe msg lock =>
    obtain ⟨⟨result, lb, pair⟩, done, ⟨⟩⟩ := bind_ok.mp taken
    exact ⟨_, inv.sendpipe allowed done⟩
  | hasOut =>
    obtain ⟨⟨b, lb, pair⟩, done, ⟨⟩⟩ := bind_ok.mp taken
    exact ⟨sent, inv.hasOut done⟩
  | call i a =>
    obtain ⟨t, done, rfl⟩ := bind_return.mp taken
    obtain ⟨member, fair, aside, other, call⟩ := allowed
    have outcome := (inv.serves.holds i).sound.outcome fair.1 fair.silent done
    exact ⟨sent, inv.call (inv.serves.stays i member) outcome aside other call⟩
  | deliver i =>
    obtain ⟨⟨t, event⟩, done, taken⟩ := bind_ok.mp taken
    obtain ⟨lb, reacts, rfl⟩ := bind_return.mp taken
    exact ⟨sent, inv.deliver allowed.1 allowed.2 placed done reacts⟩
  | peer i a =>
    obtain ⟨t, done, rfl⟩ := bind_return.mp taken
    obtain ⟨fair, stays⟩ := allowed
    have outcome := (inv.serves.holds i).sound.outcome fair.1 fair.silent done
    exact ⟨sent, inv.peer fair stays outcome⟩

end

end Inv

/-- In every run in which no removal loses the position of the current pipe in the middle
    of a message, the pipes carry whole messages. -/
theorem steady_messages_stay_whole (hwms : ι → End → Int) {s : Balancer ι}
    (reached : Reaches step Steady (start hwms) s) : s.Whole := by
  obtain ⟨sent, inv⟩ : ∃ sent, s.Inv sent :=
    reached.invariant (P := fun s => ∃ sent, s.Inv sent) ⟨[], .start hwms⟩
      fun _ _ _ ⟨_, inv⟩ steady taken => inv.step steady taken
  exact inv.whole

theorem steady_messages_stay_whole_after_leave :
    ∃ s : Balancer (Fin 3), Reaches step Steady (start fun _ _ => 5) s ∧
      ((s.pair 1).queue .second 0).map Upipe.flushed =
        some [{ flags := MsgFlag.more, data := [2] }, { data := [3] }] ∧
      s.lb.pipes.items = [2, 1] ∧ s.Whole :=
  exists_run_and₂
    [.attach 0, .attach 1, .attach 2, .sendpipe { data := [1] } true,
      .sendpipe { flags := MsgFlag.more, data := [2] } true, .peer 0 (.terminate false true),
      .deliver 0, .call 0 .read, .peer 0 .deliver, .deliver 0, .sendpipe { data := [3] } true]
    (by decide +kernel) fun _ reached _ _ => steady_messages_stay_whole _ reached

theorem message_of_frame {queue : Option Upipe} {frames : List Msg} {offered sent : List (List Msg)}
    (flushed : queue.map Upipe.flushed = some frames) (same : offered = sent)
    (whole : ∀ q, queue = some q → ∃ messages : List (List Msg),
      messages.Sublist offered ∧ q.flushed = messages.flatten)
    (member : m ∈ frames) : ∃ message ∈ sent, m ∈ message ∧ ∀ f ∈ message, f ∈ frames := by
  obtain ⟨q, found, rfl⟩ := Option.map_eq_some_iff.mp flushed
  obtain ⟨messages, sublist, all⟩ := whole q found
  rw [all] at member ⊢
  obtain ⟨message, listed, inside⟩ := List.mem_flatten.mp member
  exact ⟨message, same ▸ sublist.subset listed, inside,
    fun f there => List.mem_flatten.mpr ⟨message, listed, there⟩⟩

theorem routed_whole {sent : List (ι × List Msg)} {offered : List (List Msg)}
    (sublist : (sent.map Prod.snd).Sublist offered) (i : ι) :
    ∃ messages : List (List Msg), messages.Sublist offered ∧ routed sent i = messages.flatten :=
  ⟨_, (List.filter_sublist.map Prod.snd).trans sublist, List.flatMap_def⟩

/-- Three pipes, one message on each of the first two, and the first frame of a third
    message on the last one. When the second pipe leaves, the last pipe takes its place
    but the position is set to the first: the second frame goes there, and the first pipe
    carries half a message. -/
theorem leaving_pipe_splits_message :
    ∃ s : Balancer (Fin 3), Reaches step Allowed (start fun _ _ => 5) s ∧
      ((s.pair 0).queue .second 0).map Upipe.flushed = some [{ data := [1] }, { data := [4] }] ∧
      s.finished = [[{ data := [1] }], [{ data := [2] }],
        [{ flags := MsgFlag.more, data := [3] }, { data := [4] }]] ∧ ¬ s.Whole := by
  refine exists_run_and₂
    [.attach 0, .attach 1, .attach 2, .sendpipe { data := [1] } true, .sendpipe { data := [2] } true,
      .sendpipe { flags := MsgFlag.more, data := [3] } true, .peer 1 (.terminate false true),
      .deliver 1, .call 1 .read, .peer 1 .deliver, .deliver 1, .sendpipe { data := [4] } true]
    (by decide +kernel) fun s _ flushed finished whole => ?_
  obtain ⟨-, sent, sublist, all⟩ := whole
  have together := message_of_frame (m := { data := [4] }) flushed finished
    (fun q found => all 0 0 q found ▸ routed_whole sublist 0) (by decide)
  exact absurd together (by decide)

end Balancer

end Zmq
