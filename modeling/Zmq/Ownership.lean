import Zmq.Pipe.Basic

/-! # The tree of owners

Every object acts in the thread of its mailbox. `launch_child` takes two steps, because its first
command can start the child before the second one is sent.
-/

namespace Zmq.Ownership

open Lib Function

inductive Command (ι : Type) where
  | plug
  | own (child : ι)
  /-- Any other command that is sent after `inc_seqnum`. -/
  | counted
  | termReq (child : ι)
  | term (linger : Int)
  /-- The command of the source does not name the child. -/
  | termAck (child : ι)
  deriving Repr, DecidableEq

namespace Command

variable {ι : Type}

@[grind] def isCounted : Command ι → Bool
  | .plug | .own _ | .counted => true
  | .termReq _ | .term _ | .termAck _ => false

@[grind] def isTerm : Command ι → Bool
  | .term _ => true
  | _ => false

/-- The order of the commands about a child; `prompt` says that it waits for `own`. -/
def Ordered (prompt : Prop) (a b : Command ι) : Prop :=
  ∀ c, (a = .termAck c → b ≠ .termReq c) ∧ (prompt → a = .termReq c → b ≠ .own c)

def InOrder (prompt : Prop) (commands : List (Command ι)) : Prop :=
  commands.Pairwise (Ordered prompt)

end Command

/-- How far an object has got on its way through its owner's hands. -/
inductive Phase where
  | unborn
  | root
  /-- `plug` has been sent, and after that `own`. -/
  | plugged
  | handed
  | owned
  /-- `term` has been sent. -/
  | asked
  | ending
  /-- The object is deleted and its `term_ack` on the way. -/
  | acked
  | done
  deriving Repr, DecidableEq

/-- The fields of all the objects, and what has happened to them. -/
structure Tree (ι : Type) where
  owner : ι → Option ι := fun _ => none
  terminating : ι → Bool := fun _ => false
  owned : ι → Finset ι := fun _ => ∅
  /-- How often `inc_seqnum` was called: `_sent_seqnum` is this modulo `2 ^ 32`. -/
  sentSeqnum : ι → Nat := fun _ => 0
  processedSeqnum : ι → Nat := fun _ => 0
  termAcks : ι → Int := fun _ => 0
  linger : ι → Int
  mailbox : ι → List (Command ι) := fun _ => []
  /-- The child between the two commands of `launch_child`. -/
  launching : ι → Option ι := fun _ => none
  /-- Calls of `inc_seqnum` whose command is not sent yet. -/
  announced : ι → Nat := fun _ => 0
  phase : ι → Phase
  /-- The children whose `term_ack` is missing. -/
  awaited : ι → Finset ι := fun _ => ∅
  /-- The object has called `terminate`. -/
  requested : ι → Bool := fun _ => false
  /-- The objects are numbered as they are launched. -/
  rank : ι → Nat := fun _ => 0
  born : Nat := 1
  /-- How often `process_term` and `process_destroy` have run. -/
  terms : ι → Nat := fun _ => 0
  destroyed : ι → Nat := fun _ => 0

namespace Tree

variable {ι : Type} [DecidableEq ι] (t : Tree ι)

def send (i : ι) (c : Command ι) : Tree ι :=
  { t with mailbox := update t.mailbox i (t.mailbox i ++ [c]) }

/-- `register_term_acks` and `send_term` for some children, which are no longer owned. -/
def release (i : ι) (children : Finset ι) (linger : Int) : Tree ι :=
  { t with
    owned := update t.owned i (t.owned i \ children)
    termAcks := update t.termAcks i (int (t.termAcks i + int children.card))
    awaited := update t.awaited i (t.awaited i ∪ children)
    mailbox := fun j => if j ∈ children then t.mailbox j ++ [.term linger] else t.mailbox j
    phase := fun j => if j ∈ children then .asked else t.phase j }

def checkTermAcks (i : ι) : Except Fault (Tree ι) :=
  if t.terminating i = true ∧ t.processedSeqnum i = t.sentSeqnum i % 2 ^ 32 ∧
      t.termAcks i = 0 then
    if t.owned i = ∅ then
      let t := { t with destroyed := update t.destroyed i (t.destroyed i + 1) }
      match t.owner i with
      | none => .ok { t with phase := update t.phase i .done }
      | some p => .ok ({ t with phase := update t.phase i .acked }.send p (.termAck i))
    else .error (.assertion .checkTermAcks)
  else .ok t

def processSeqnum (i : ι) : Except Fault (Tree ι) :=
  { t with processedSeqnum := update t.processedSeqnum i (t.processedSeqnum i + 1) }.checkTermAcks i

def processOwn (i child : ι) : Tree ι :=
  if t.terminating i then t.release i {child} 0
  else { t with
    owned := update t.owned i (insert child (t.owned i))
    phase := update t.phase child .owned }

def processTermReq (i child : ι) : Tree ι :=
  if t.terminating i then t
  else if child ∈ t.owned i then t.release i {child} (t.linger i)
  else t

def processTerm (i : ι) (linger : Int) : Except Fault (Tree ι) :=
  if t.terminating i then .error (.assertion .processTerm)
  else
    let t := t.release i (t.owned i) linger
    { t with
      terminating := update t.terminating i true
      phase := update t.phase i .ending
      terms := update t.terms i (t.terms i + 1) }.checkTermAcks i

def processTermAck (i child : ι) : Except Fault (Tree ι) :=
  if 0 < t.termAcks i then { t with
    termAcks := update t.termAcks i (t.termAcks i - 1)
    awaited := update t.awaited i ((t.awaited i).erase child)
    phase := update t.phase child .done }.checkTermAcks i
  else .error (.assertion .unregisterTermAck)

def processCommand (i : ι) : Command ι → Except Fault (Tree ι)
  | .plug | .counted => t.processSeqnum i
  | .own child => (t.processOwn i child).processSeqnum i
  | .termReq child => .ok (t.processTermReq i child)
  | .term linger => t.processTerm i linger
  | .termAck child => t.processTermAck i child

def terminate (i : ι) : Except Fault (Tree ι) :=
  if t.terminating i then .ok t
  else
    let t := { t with requested := update t.requested i true }
    match t.owner i with
    | none => t.processTerm i (t.linger i)
    | some p => .ok (t.send p (.termReq i))

inductive Action (ι : Type) where
  | launch (i child : ι)
  | sendOwn (i : ι)
  | incSeqnum (i : ι)
  | sendCounted (i : ι)
  | termChild (i child : ι)
  | terminate (i : ι)
  | deliver (i : ι)

def step : Action ι → Except Fault (Tree ι)
  | .launch i child =>
    if (t.owner child).isSome then .error (.assertion .setOwner)
    else .ok { t with
      owner := update t.owner child (some i)
      sentSeqnum := update t.sentSeqnum child (t.sentSeqnum child + 1)
      mailbox := update t.mailbox child (t.mailbox child ++ [.plug])
      phase := update t.phase child .plugged
      launching := update t.launching i (some child)
      rank := update t.rank child t.born
      born := t.born + 1 }
  | .sendOwn i =>
    match t.launching i with
    | none => .ok t
    | some child => .ok { t with
        sentSeqnum := update t.sentSeqnum i (t.sentSeqnum i + 1)
        mailbox := update t.mailbox i (t.mailbox i ++ [.own child])
        phase := update t.phase child .handed
        launching := update t.launching i none }
  | .incSeqnum i => .ok { t with
      sentSeqnum := update t.sentSeqnum i (t.sentSeqnum i + 1)
      announced := update t.announced i (t.announced i + 1) }
  | .sendCounted i => .ok { t with
      mailbox := update t.mailbox i (t.mailbox i ++ [.counted])
      announced := update t.announced i (t.announced i - 1) }
  | .termChild i child => .ok (t.processTermReq i child)
  | .terminate i => t.terminate i
  | .deliver i =>
    match t.mailbox i with
    | [] => .ok t
    | c :: rest =>
      if t.destroyed i ≠ 0 then .error .useAfterFree
      else { t with mailbox := update t.mailbox i rest }.processCommand i c

def Acts (i : ι) : Prop :=
  t.phase i ≠ .unborn ∧ t.destroyed i = 0 ∧ t.launching i = none

def Possible : Action ι → Prop
  | .launch i child => t.Acts i ∧ t.phase child = .unborn
  | .sendOwn i => t.launching i ≠ none
  | .incSeqnum i => t.destroyed i = 0
  | .sendCounted i => t.announced i ≠ 0
  | .termChild i _ | .terminate i => t.Acts i
  | .deliver i => t.mailbox i ≠ [] ∧ t.launching i = none

/-- `_sent_seqnum` does not wrap, and `_term_acks` has room for the children that are owned. -/
def Few : Action ι → Prop
  | .launch _ i | .sendOwn i | .incSeqnum i => t.sentSeqnum i + 1 < 2 ^ 32
  | .deliver i =>
    match t.mailbox i with
    | .own _ :: _ => t.termAcks i + (t.owned i).card + 1 < 2 ^ 31
    | _ => True
  | _ => True

/-- `terminate` is not called between the two commands of `launch_child`. -/
def Prompt : Action ι → Prop
  | .terminate i => t.phase i ≠ .plugged
  | _ => True

instance (a : Action ι) : Decidable (t.Possible a) := by
  cases a <;> dsimp only [Possible, Acts] <;> infer_instance

instance (a : Action ι) : Decidable (t.Few a) := by
  cases a <;> dsimp only [Few] <;> (try split) <;> infer_instance

instance (a : Action ι) : Decidable (t.Prompt a) := by
  cases a <;> dsimp only [Prompt] <;> infer_instance

def start (root : ι) (linger : ι → Int) : Tree ι where
  linger := linger
  phase i := if i = root then .root else .unborn

@[grind cases]
structure Inv (prompt : Prop) (busy : Option ι) (t : Tree ι) : Prop where
  seqnum : ∀ i, t.processedSeqnum i + (t.mailbox i).countP Command.isCounted + t.announced i =
    t.sentSeqnum i
  few : ∀ i, t.sentSeqnum i < 2 ^ 32
  acks : ∀ i, t.termAcks i = (t.awaited i).card
  room : ∀ i, (t.awaited i).card + (t.owned i).card < 2 ^ 31
  launching : ∀ i c, t.launching i = some c ↔ t.owner c = some i ∧ t.phase c = .plugged
  handed : ∀ i c, (t.mailbox i).count (.own c) =
    if t.owner c = some i ∧ t.phase c = .handed then 1 else 0
  owned : ∀ i c, c ∈ t.owned i ↔ t.owner c = some i ∧ t.phase c = .owned
  asked : ∀ c, (t.mailbox c).countP Command.isTerm = if t.phase c = .asked then 1 else 0
  awaited : ∀ i c, c ∈ t.awaited i ↔ t.owner c = some i ∧
    (t.phase c = .asked ∨ t.phase c = .ending ∨ t.phase c = .acked)
  acked : ∀ i c, (t.mailbox i).count (.termAck c) =
    if t.owner c = some i ∧ t.phase c = .acked then 1 else 0
  terminating : ∀ i, t.terminating i = true ↔
    t.phase i = .ending ∨ t.phase i = .acked ∨ t.phase i = .done
  terms : ∀ i, t.terms i = (t.terminating i).toNat
  destroyed : ∀ i, t.destroyed i = if t.phase i = .acked ∨ t.phase i = .done then 1 else 0
  orphan : ∀ i, t.phase i = .unborn ∨ t.phase i = .root → t.owner i = none
  child : ∀ i, t.owner i = none → t.phase i = .unborn ∨ t.phase i = .root ∨
    t.phase i = .ending ∨ t.phase i = .done
  released : ∀ i, t.terminating i = true → t.owned i = ∅
  request : ∀ i c, .termReq c ∈ t.mailbox i →
    t.owner c = some i ∧ t.phase c ≠ .done ∧ t.requested c = true
  ordered : ∀ i, Command.InOrder prompt (t.mailbox i)
  /-- The requests of the children that are still owned are on their way. -/
  heard : prompt → ∀ c, t.requested c = true → t.phase c ≠ .unborn ∧ t.phase c ≠ .plugged ∧
    ∀ i, t.owner c = some i → t.phase c = .handed ∨ t.phase c = .owned → .termReq c ∈ t.mailbox i
  ended : ∀ i, t.phase i = .acked ∨ t.phase i = .done →
    t.mailbox i = [] ∧ t.launching i = none ∧ t.awaited i = ∅ ∧ t.announced i = 0
  waits : ∀ i, busy ≠ some i → t.phase i = .ending →
    t.processedSeqnum i ≠ t.sentSeqnum i ∨ t.termAcks i ≠ 0
  older : ∀ i c, t.owner c = some i → t.rank i < t.rank c ∧ t.phase i ≠ .unborn
  bound : ∀ c, t.phase c ≠ .unborn → t.rank c < t.born

variable {prompt : Prop} {busy : Option ι} {t t' : Tree ι} {i p c : ι}

section

variable (inv : Inv prompt busy t)
include inv

theorem Inv.childDone (owner : t.owner c = some i)
    (unhanded : .own c ∉ t.mailbox i) (none : t.launching i = none) (all : t.owned i = ∅)
    (acked : t.awaited i = ∅) : t.phase c = .done := by
  have := inv.handed i c
  have := inv.owned i c
  have := inv.awaited i c
  have := inv.launching i c
  have := inv.orphan c
  cases phase : t.phase c <;> grind -linarith

theorem Inv.last (ended : t.phase i = .acked ∨ t.phase i = .done)
    (owner : t.owner c = some i) : t.phase c = .done := by
  have := inv.ended i ended
  exact inv.childDone owner (by simp [this]) this.2.1
    (inv.released i ((inv.terminating i).mpr (.inr ended))) this.2.2.1

theorem Inv.ordered_append (a : Command ι)
    (behind : ∀ c, (a = .termReq c → .termAck c ∉ t.mailbox i) ∧
      (prompt → a = .own c → .termReq c ∉ t.mailbox i)) :
    Command.InOrder prompt (t.mailbox i ++ [a]) := by
  refine List.pairwise_append.mpr ⟨inv.ordered i, by simp, ?_⟩
  simp only [Command.Ordered, List.mem_singleton]
  grind

theorem Inv.registered {cs : Finset ι} (fresh : ∀ c ∈ cs, c ∉ t.awaited i)
    (room : (t.awaited i).card + cs.card + (t.owned i \ cs).card < 2 ^ 31) :
    int (t.termAcks i + int cs.card) = (t.awaited i ∪ cs).card ∧
      (t.awaited i ∪ cs).card + (t.owned i \ cs).card < 2 ^ 31 := by
  have apart : Disjoint (t.awaited i) cs := Finset.disjoint_right.mpr fun {c} => fresh c
  have count : int cs.card = cs.card := int_eq_self (by omega) (by omega)
  rw [Finset.card_union_of_disjoint apart, inv.acks, count, int_eq_self (by omega) (by omega)]
  exact ⟨by omega, room⟩

theorem Inv.registered_owned {cs : Finset ι} (children : cs ⊆ t.owned i) :
    int (t.termAcks i + int cs.card) = (t.awaited i ∪ cs).card ∧
      (t.awaited i ∪ cs).card + (t.owned i \ cs).card < 2 ^ 31 := by
  refine inv.registered (by grind) ?_
  have room := inv.room i
  have fewer := Finset.card_le_card children
  rw [Finset.card_sdiff_of_subset children]
  omega

end

theorem Inv.processTermReq (inv : Inv prompt none t) : Inv prompt none (t.processTermReq i c) := by
  unfold Tree.processTermReq
  split
  · exact inv
  · split
    · rename_i child
      have := inv.registered_owned (Finset.singleton_subset_iff.mpr child)
      have := fun j => inv.ordered_append (i := j) (.term (t.linger i)) (by simp)
      constructor <;> simp only [release, update_apply] <;> grind -linarith
    · exact inv

theorem Inv.checkTermAcks (inv : Inv prompt (some i) t) (alive : t.destroyed i = 0)
    (idle : t.launching i = none) : ∃ t', t.checkTermAcks i = .ok t' ∧ Inv prompt none t' := by
  unfold Tree.checkTermAcks
  rw [Nat.mod_eq_of_lt (inv.few i)]
  split
  · rename_i ready
    obtain ⟨terminating, processed, acked⟩ := ready
    have none_left := inv.released i terminating
    have awaited : t.awaited i = ∅ := by grind
    have uncounted := List.countP_eq_zero.mp
      (show (t.mailbox i).countP Command.isCounted = 0 by have := inv.seqnum i; omega)
    have done (c : ι) (owner : t.owner c = some i) : t.phase c = .done :=
      inv.childDone owner (fun mem => uncounted _ mem rfl) idle none_left awaited
    have empty : t.mailbox i = [] := by
      rw [List.eq_nil_iff_forall_not_mem]
      intro a mem
      have := List.countP_pos_iff (p := Command.isTerm) (l := t.mailbox i)
      have (c : ι) := List.count_pos_iff (a := Command.termAck c) (l := t.mailbox i)
      cases a <;> grind -linarith
    rw [if_pos none_left]
    dsimp only
    split
    · refine ⟨_, rfl, ?_⟩
      constructor <;> simp only [update_apply] <;> grind -linarith
    · rename_i p owner
      have := inv.last (i := p) (c := i)
      have := inv.ordered_append (i := p) (.termAck i) (by simp)
      refine ⟨_, rfl, ?_⟩
      constructor <;> simp only [send, update_apply] <;> grind -linarith
  · refine ⟨t, rfl, { inv with waits := ?_ }⟩
    grind

@[grind cases]
structure Popped (prompt : Prop) (t : Tree ι) (i : ι) (head : Command ι)
    (rest : List (Command ι)) : Prop where
  alive : t.phase i ≠ .acked ∧ t.phase i ≠ .done
  handed : ∀ c, (if head = .own c then 1 else 0) + rest.count (.own c) =
    if t.owner c = some i ∧ t.phase c = .handed then 1 else 0
  acked : ∀ c, (if head = .termAck c then 1 else 0) + rest.count (.termAck c) =
    if t.owner c = some i ∧ t.phase c = .acked then 1 else 0
  seqnum : t.processedSeqnum i + (if head.isCounted then 1 else 0) +
    rest.countP Command.isCounted + t.announced i = t.sentSeqnum i
  request : ∀ c, .termReq c ∈ rest →
    t.owner c = some i ∧ t.phase c ≠ .done ∧ t.requested c = true ∧ head ≠ .termAck c
  ordered : Command.InOrder prompt rest

variable {head : Command ι} {rest : List (Command ι)}

theorem Inv.popped (inv : Inv prompt busy t) (mailbox : t.mailbox i = head :: rest) :
    Popped prompt t i head rest ∧ rest.countP Command.isTerm + (if head.isTerm then 1 else 0) =
      if t.phase i = .asked then 1 else 0 := by
  have handed := inv.handed i
  have acked := inv.acked i
  have asked := inv.asked i
  have seqnum := inv.seqnum i
  have request := inv.request i
  have ended := inv.ended i
  obtain ⟨first, ordered⟩ := List.pairwise_cons.mp (mailbox ▸ inv.ordered i)
  simp only [mailbox] at handed acked asked seqnum request ended
  have := fun c mem => (first (.termReq c) mem c).1
  have : Command.InOrder prompt rest := ordered
  refine ⟨?_, by rw [← asked, List.countP_cons]⟩
  constructor <;> grind -linarith

theorem Inv.processTerm (linger : Int) (inv : Inv prompt none t) (idle : t.launching i = none)
    {l : Int} {r : ι → Bool} (asked : t.mailbox i = .term l :: rest ∧ r = t.requested ∨
      t.phase i = .root ∧ t.mailbox i = rest ∧ r = update t.requested i true) :
    ∃ t', { t with mailbox := update t.mailbox i rest, requested := r }.processTerm i linger =
      .ok t' ∧ Inv prompt none t' := by
  have := inv.registered_owned (Finset.Subset.refl (t.owned i))
  have := fun j => inv.ordered_append (i := j) (.term linger) (by simp)
  obtain ⟨popped, last, early⟩ : Popped prompt t i (.term l) rest ∧
      rest.countP Command.isTerm = 0 ∧ (t.phase i = .asked ∨ t.phase i = .root) := by
    rcases asked with ⟨mailbox, -⟩ | ⟨root, rfl, -⟩
    · obtain ⟨popped, asked⟩ := inv.popped mailbox
      exact ⟨popped, by grind⟩
    · have := inv.asked i
      refine ⟨?_, by grind⟩
      constructor <;> grind -linarith
  have undone : t.destroyed i = 0 := by
    rw [inv.destroyed]
    grind
  have kept (c : ι) : (.termReq c ∈ t.mailbox i → .termReq c ∈ rest) ∧
      (t.requested c = true → r c = true) ∧ (r c = true → t.requested c = true ∨ c = i) := by
    rcases asked with ⟨mailbox, rfl⟩ | ⟨-, rfl, rfl⟩
    · simp +contextual [mailbox]
    · grind
  clear asked
  unfold Tree.processTerm
  rw [if_neg (by grind)]
  refine Inv.checkTermAcks ?_ undone idle
  constructor <;> simp only [release, update_apply] <;> grind -linarith

section

variable (inv : Inv prompt none t)
include inv

section

variable (few : t.Few (.deliver i)) (mailbox : t.mailbox i = .own c :: rest)
include mailbox

theorem Inv.own_taken : t.owner c = some i ∧
    t.phase c = .handed ∧ ∀ j, j ≠ i → (t.mailbox j).count (.own c) = 0 := by
  have handed := (inv.popped mailbox).1.handed c
  have owner : t.owner c = some i ∧ t.phase c = .handed := by grind
  refine ⟨owner.1, owner.2, fun j other => ?_⟩
  rw [inv.handed, if_neg (by grind)]

include few

theorem Inv.own_room : (t.awaited i).card + (t.owned i).card + 1 < 2 ^ 31 := by
  simp only [Few, mailbox, inv.acks] at few
  omega

theorem Inv.processOwn_late (late : t.terminating i = true) :
    let u := { t with mailbox := update t.mailbox i rest }.release i {c} 0
    Inv prompt (some i)
      { u with processedSeqnum := update u.processedSeqnum i (u.processedSeqnum i + 1) } := by
  obtain ⟨owner, phase, elsewhere⟩ := inv.own_taken mailbox
  obtain ⟨popped, asked⟩ := inv.popped mailbox
  have := inv.ordered_append (i := c) (.term 0) (by simp)
  have fresh : c ∉ t.awaited i := by grind
  have room := inv.own_room few mailbox
  have alone : ∀ x ∈ ({c} : Finset ι), x ∉ t.awaited i := by simpa
  have := inv.registered alone (by
    simp only [inv.released i late, Finset.card_singleton, Finset.empty_sdiff] at room ⊢
    omega)
  constructor <;> simp only [release, update_apply, Finset.mem_singleton] <;> grind -linarith

theorem Inv.processOwn : let u := { t with mailbox := update t.mailbox i rest }.processOwn i c
    Inv prompt (some i)
      { u with processedSeqnum := update u.processedSeqnum i (u.processedSeqnum i + 1) } := by
  unfold Tree.processOwn
  split
  · exact inv.processOwn_late few mailbox ‹_›
  · obtain ⟨owner, phase, elsewhere⟩ := inv.own_taken mailbox
    obtain ⟨popped, asked⟩ := inv.popped mailbox
    have := inv.own_room few mailbox
    have := Finset.card_insert_le c (t.owned i)
    constructor <;> simp only [update_apply] <;> grind -linarith

end

theorem Inv.processTermAck (alive : t.destroyed i = 0) (idle : t.launching i = none)
    (mailbox : t.mailbox i = .termAck c :: rest) :
    ∃ t', { t with mailbox := update t.mailbox i rest }.processTermAck i c = .ok t' ∧
      Inv prompt none t' := by
  obtain ⟨popped, asked⟩ := inv.popped mailbox
  have := popped.acked c
  have owner : t.owner c = some i ∧ t.phase c = .acked := by grind
  have child : c ∈ t.awaited i := (inv.awaited i c).mpr (by grind)
  have some := Finset.card_pos.mpr ⟨c, child⟩
  have := Finset.card_erase_of_mem child
  unfold Tree.processTermAck
  rw [if_pos (by simpa [inv.acks] using ⟨c, child⟩)]
  refine Inv.checkTermAcks ?_ alive idle
  constructor <;> simp only [update_apply] <;> grind -linarith

theorem Inv.request_taken (mailbox : t.mailbox i = .termReq c :: rest) :
    Inv prompt none ({ t with mailbox := update t.mailbox i rest }.processTermReq i c) := by
  obtain ⟨popped, asked⟩ := inv.popped mailbox
  have early (p : prompt) : t.phase c ≠ .handed := by
    have behind (mem : .own c ∈ rest) : False :=
      ((List.pairwise_cons.mp (mailbox ▸ inv.ordered i)).1 _ mem c).2 p rfl rfl
    have := popped.handed c
    have := inv.request i c
    grind
  have ignored (other : c ∉ t.owned i) :
      Inv prompt none { t with mailbox := update t.mailbox i rest } := by
    have := inv.request i c
    have := inv.owned i c
    refine { inv with
      seqnum := ?_, handed := ?_, asked := ?_, acked := ?_, request := ?_, ordered := ?_,
      heard := ?_, ended := ?_ } <;> simp only [update_apply] <;> grind -linarith
  unfold Tree.processTermReq
  split
  · exact ignored (by simp [inv.released i ‹_›])
  · split
    · rename_i child
      have := inv.registered_owned (Finset.singleton_subset_iff.mpr child)
      have (j : ι) := inv.ordered_append (i := j) (.term (t.linger i)) (by simp)
      constructor <;> simp only [release, update_apply] <;> grind -linarith
    · exact ignored ‹_›

theorem Inv.deliver (idle : t.launching i = none) (few : t.Few (.deliver i))
    (waiting : t.mailbox i ≠ []) : ∃ t', t.step (.deliver i) = .ok t' ∧ Inv prompt none t' := by
  obtain ⟨head, rest, mailbox⟩ := List.exists_cons_of_ne_nil waiting
  obtain ⟨popped, asked⟩ := inv.popped mailbox
  have alive : t.destroyed i = 0 := by
    rw [inv.destroyed]
    grind
  simp only [Tree.step, mailbox, alive, ne_eq, not_true_eq_false, if_false]
  cases head with
  | plug | counted =>
    refine Inv.checkTermAcks { inv with
      seqnum := ?_, handed := ?_, asked := ?_, acked := ?_, request := ?_, ordered := ?_,
      heard := ?_, ended := ?_, waits := ?_ } alive idle <;>
        simp only [update_apply] <;> grind -linarith
  | own c =>
    refine (Inv.processOwn inv few mailbox).checkTermAcks ?_ ?_ <;>
      simp only [Tree.processOwn, release] <;> split <;> assumption
  | termReq c => exact ⟨_, rfl, inv.request_taken mailbox⟩
  | term linger => exact Inv.processTerm linger inv idle (.inl ⟨mailbox, rfl⟩)
  | termAck c => exact Inv.processTermAck inv alive idle mailbox

theorem Inv.terminate (acts : t.Acts i) (waits : prompt → t.phase i ≠ .plugged) :
    ∃ t', t.terminate i = .ok t' ∧ Inv prompt none t' := by
  obtain ⟨born, alive, idle⟩ := acts
  unfold Tree.terminate
  split
  · exact ⟨t, rfl, inv⟩
  · rename_i quiet
    dsimp only
    split
    · rename_i owner
      have root : t.phase i = .root := by
        have := inv.child i owner
        grind
      have done := Inv.processTerm (t.linger i) inv idle (l := 0) (.inr ⟨root, rfl, rfl⟩)
      rwa [update_eq_self] at done
    · rename_i p owner
      have := inv.last (i := p) (c := i)
      have unacked : .termAck i ∉ t.mailbox p := by
        rw [← List.count_eq_zero, inv.acked]
        grind
      have := inv.ordered_append (i := p) (.termReq i) (by grind)
      refine ⟨_, rfl, { inv with
        seqnum := ?_, handed := ?_, asked := ?_, acked := ?_, request := ?_, ordered := ?_,
        heard := ?_, ended := ?_ }⟩ <;> simp only [send, update_apply] <;> grind -linarith

theorem Inv.launch (possible : t.Possible (.launch i c)) (few : t.Few (.launch i c)) :
    ∃ t', t.step (.launch i c) = .ok t' ∧ Inv prompt none t' := by
  simp only [Few] at few
  obtain ⟨⟨born, alive, idle⟩, fresh⟩ := possible
  have owner := inv.orphan c (.inl fresh)
  have := inv.ordered_append (i := c) .plug (by simp)
  simp only [Tree.step, owner, Option.isSome_none, Bool.false_eq_true, if_false]
  refine ⟨_, rfl, ?_⟩
  constructor <;> simp only [update_apply] <;> grind -linarith

theorem Inv.step {a : Action ι} (possible : t.Possible a) (few : t.Few a)
    (waits : prompt → t.Prompt a) : ∃ t', t.step a = .ok t' ∧ Inv prompt none t' := by
  cases a with
  | launch i c => exact Inv.launch inv possible few
  | sendOwn i =>
    simp only [Few] at few
    obtain ⟨c, launching⟩ := Option.ne_none_iff_exists'.mp possible
    have := (inv.launching i c).mp launching
    have := inv.ordered_append (i := i) (.own c) (by
      have := inv.request i c
      grind)
    simp only [Tree.step, launching]
    refine ⟨_, rfl, ?_⟩
    constructor <;> simp only [update_apply] <;> grind -linarith
  | incSeqnum i =>
    simp only [Few] at few
    have alive : t.destroyed i = 0 := possible
    refine ⟨_, rfl, { inv with seqnum := ?_, few := ?_, ended := ?_, waits := ?_ }⟩ <;>
      simp only [update_apply] <;> grind
  | sendCounted i =>
    have left : t.announced i ≠ 0 := possible
    have := inv.ordered_append (i := i) .counted (by simp)
    refine ⟨_, rfl, { inv with
      seqnum := ?_, handed := ?_, asked := ?_, acked := ?_, request := ?_, ordered := ?_,
      heard := ?_, ended := ?_ }⟩ <;> simp only [update_apply] <;> grind -linarith
  | termChild i c => exact ⟨_, rfl, inv.processTermReq⟩
  | terminate i => exact Inv.terminate inv possible waits
  | deliver i => exact Inv.deliver inv possible.2 few possible.1

/-- No command is in flight, and none is about to be sent. -/
def Still (t : Tree ι) : Prop :=
  ∀ i, t.mailbox i = [] ∧ t.launching i = none ∧ t.announced i = 0

theorem Inv.gone (still : t.Still) : t.phase i ≠ .ending := by
  -- the objects that wait for each other have ever higher ranks
  induction m : t.born - t.rank i using Nat.strong_induction_on generalizing i with
  | _ m ih =>
    intro ending
    obtain ⟨empty, -, announced⟩ := still i
    have := inv.seqnum i
    have waits := inv.waits i (by simp) ending
    simp only [empty, List.countP_nil, announced] at this
    have some : (t.awaited i).Nonempty := by
      have := inv.acks i
      rw [← Finset.card_ne_zero]
      omega
    obtain ⟨c, mem⟩ := some
    obtain ⟨owner, phase⟩ := (inv.awaited i c).mp mem
    have asked := inv.asked c
    have acked := inv.acked i c
    simp only [(still c).1, empty, List.countP_nil, List.count_nil] at asked acked
    have older := (inv.older i c owner).1
    have bound := inv.bound c (by grind)
    exact ih (t.born - t.rank c) (by omega) rfl (by grind)

end

theorem inv_of_reaches {root : ι} {linger : ι → Int}
    (reached : Reaches step (fun t a => t.Possible a ∧ t.Few a ∧ (prompt → t.Prompt a))
      (start root linger) t) : Inv prompt none t := by
  apply reached.invariant
  · constructor <;> simp only [start] <;> grind [Command.InOrder]
  · intro s a t inv possible taken
    obtain ⟨t', taken', inv⟩ := inv.step possible.1 possible.2.1 possible.2.2
    cases taken.symm.trans taken'
    exact inv

theorem shutdown_is_exact (root : ι) (linger : ι → Int)
    (reached : Reaches step (fun t a => t.Possible a ∧ t.Few a) (start root linger) t) :
    (∀ a, t.Possible a → t.Few a → ∃ t', t.step a = .ok t') ∧
    ∀ i, t.terms i ≤ 1 ∧ t.destroyed i ≤ 1 ∧
      (t.destroyed i = 1 → t.processedSeqnum i = t.sentSeqnum i ∧
        ∀ c, t.owner c = some i → t.destroyed c = 1) ∧
      (t.Still → t.terms i = 1 → t.destroyed i = 1) := by
  have inv : Inv False none t := 
    inv_of_reaches (reached.mono fun _ _ allowed => ⟨allowed.1, allowed.2, nofun⟩)
  refine ⟨fun a possible few => ?_, fun i => ⟨?_, ?_, fun gone => ?_, fun still once => ?_⟩⟩
  · obtain ⟨t', taken, -⟩ := inv.step possible few nofun
    exact ⟨t', taken⟩
  · rw [inv.terms]
    exact Bool.toNat_le _
  · rw [inv.destroyed]
    split <;> simp
  · have ended : t.phase i = .acked ∨ t.phase i = .done := by
      have := inv.destroyed i
      grind
    have := inv.seqnum i
    have := inv.ended i ended
    refine ⟨by grind, fun c owner => ?_⟩
    rw [inv.destroyed, inv.last ended owner]
    rfl
  · have := inv.gone (i := i) still
    have := inv.terminating i
    have := inv.terms i
    have := inv.destroyed i
    grind

instance (t : Tree Bool) : Decidable t.Still := inferInstanceAs (Decidable (∀ _, _ ∧ _))

theorem shutdown_is_exact_child : ∃ t : Tree Bool,
    (t.Still ∧ t.terms false = 1) ∧ t.destroyed false = 1 ∧ t.destroyed true = 1 := by
  obtain ⟨t, reached, still, once, owner⟩ := exists_reaches step
    (fun t a => t.Possible a ∧ t.Few a) (start false fun _ => 0)
    [.launch false true, .sendOwn false, .deliver true, .deliver false, .terminate false,
      .deliver true, .deliver false]
    (fun t => t.Still ∧ t.terms false = 1 ∧ t.owner true = some false) (by decide +kernel)
  obtain ⟨-, -, last, gone⟩ := (shutdown_is_exact _ _ reached).2 false
  exact ⟨t, ⟨still, once⟩, gone still once, (last (gone still once)).2 true owner⟩

theorem reaches_announced (n : Nat) : Reaches step Possible (start () fun _ => 0)
    { start () (fun _ => 0) with sentSeqnum := fun _ => n, announced := fun _ => n } := by
  induction n with
  | zero => exact .start
  | succ n ih =>
    refine ih.next (a := .incSeqnum ()) rfl ?_
    simp [step, funext_iff]

/-- After `2 ^ 32` calls of `inc_seqnum` no command seems to be missing. -/
theorem wrapped_seqnum_destroys : ∃ t : Tree Unit, Reaches step Possible (start () fun _ => 0) t ∧
    t.destroyed () = 1 ∧ t.processedSeqnum () = 0 ∧ t.sentSeqnum () = 2 ^ 32 :=
  ⟨_, (reaches_announced (2 ^ 32)).next (a := .terminate ()) ⟨by decide, rfl, rfl⟩ rfl, rfl, rfl,
    rfl⟩

/-- If no object calls `terminate` before `launch_child` has returned, no request is lost. -/
theorem requests_are_heard (root : ι) (linger : ι → Int)
    (reached : Reaches step (fun t a => t.Possible a ∧ t.Few a ∧ t.Prompt a) (start root linger) t)
    (still : t.Still) : ∀ c, t.requested c = true → ∀ i, c ∉ t.owned i := by
  have inv : Inv True none t :=
    inv_of_reaches (reached.mono fun _ _ allowed => ⟨allowed.1, allowed.2.1, fun _ => allowed.2.2⟩)
  intro c asked i mem
  obtain ⟨owner, owned⟩ := (inv.owned i c).mp mem
  have request := (inv.heard trivial c asked).2.2 i owner (.inr owned)
  simp [(still i).1] at request

theorem requests_are_heard_then : ∃ t : Tree Bool,
    (t.Still ∧ t.requested true = true ∧ t.destroyed false = 0) ∧ true ∉ t.owned false := by
  obtain ⟨t, reached, test⟩ := exists_reaches step (fun t a => t.Possible a ∧ t.Few a ∧ t.Prompt a)
    (start false fun _ => 0)
    [.launch false true, .sendOwn false, .deliver true, .terminate true, .deliver false,
      .deliver false, .deliver true, .deliver false]
    (fun t => t.Still ∧ t.requested true = true ∧ t.destroyed false = 0) (by decide +kernel)
  exact ⟨t, test, requests_are_heard _ _ reached test.1 true test.2.1 false⟩

/-- The child asks before its owner knows it, and is then owned for good. -/
theorem early_request_is_lost : ∃ t : Tree Bool, Reaches step Possible (start false fun _ => 0) t ∧
    t.Still ∧ t.requested true = true ∧ true ∈ t.owned false ∧ t.phase true = .owned :=
  exists_reaches _ _ _
    [.launch false true, .deliver true, .terminate true, .sendOwn false, .deliver false,
      .deliver false] _ (by decide +kernel)

end Tree

end Zmq.Ownership
