import Zmq.Msg
import Zmq.Ypipe

/-! # The two message queues behind a pipe

A pipe holds its queues through `ypipe_base_t`: the lock-free `ypipe_t`, or
`ypipe_conflate_t`, a double buffer that keeps the last message only. The loops
of `pipe_t` that run over one queue are here as well.
-/

namespace Zmq

structure Dbuffer where
  back : Msg := .init
  front : Msg := .init
  hasMsg : Bool := false

namespace Dbuffer

/-- `dbuffer_t::write`. When the reader holds the lock the swap is given up. -/
def write (d : Dbuffer) (value : Msg) (tryLock : Bool) : Dbuffer :=
  if tryLock then { back := .init, front := value, hasMsg := true }
  else { d with back := value }

def read (d : Dbuffer) : Option Msg × Dbuffer :=
  if d.hasMsg then (some d.front, { d with front := .init, hasMsg := false }) else (none, d)

end Dbuffer

structure YpipeConflate where
  dbuffer : Dbuffer := {}
  readerAwake : Bool := false

namespace YpipeConflate

/-- `ypipe_conflate_t::check_read`. Nothing ever sets the flag to true. -/
def checkRead (p : YpipeConflate) : Bool × YpipeConflate :=
  if p.dbuffer.hasMsg then (true, p) else (false, { p with readerAwake := false })

def read (p : YpipeConflate) : Option Msg × YpipeConflate :=
  if p.checkRead.1 then
    (p.checkRead.2.dbuffer.read.1, { p.checkRead.2 with dbuffer := p.checkRead.2.dbuffer.read.2 })
  else (none, p.checkRead.2)

end YpipeConflate

/-- `upipe_t`: what a `pipe_t` sees of either queue. -/
inductive Upipe where
  | normal (y : Ypipe Msg)
  | conflate (p : YpipeConflate)

namespace Upipe

/-- The allocation `pipepair` and `pipe_t::hiccup` make. -/
def new (conflate : Bool) : Upipe :=
  if conflate then .conflate {} else .normal .new

/-- `tryLock` is what `try_lock` returns inside a conflating queue. -/
def write (u : Upipe) (value : Msg) (incomplete tryLock : Bool) : Upipe :=
  match u with
  | .normal y => .normal (y.write value incomplete)
  | .conflate p => .conflate { p with dbuffer := p.dbuffer.write value tryLock }

def unwrite : Upipe → Option (Msg × Upipe)
  | .normal y => y.unwrite.map fun (value, y') => (value, .normal y')
  | .conflate _ => none

def flush : Upipe → Bool × Upipe
  | .normal y => (y.flush.1, .normal y.flush.2)
  | .conflate p => (p.readerAwake, .conflate p)

def checkRead : Upipe → Bool × Upipe
  | .normal y => (y.checkRead.1, .normal y.checkRead.2)
  | .conflate p => (p.checkRead.1, .conflate p.checkRead.2)

def read : Upipe → Option Msg × Upipe
  | .normal y => (y.read.1, .normal y.read.2)
  | .conflate p => (p.read.1, .conflate p.read.2)

/-- `none` is a failed assertion inside `ypipe_t::probe`. -/
def probe (fn : Msg → Bool) : Upipe → Option Bool
  | .normal y => y.probe fn
  | .conflate p => some (fn p.dbuffer.front)

def pending : Upipe → Nat
  | .normal y => y.w - y.front
  | .conflate p => if p.dbuffer.hasMsg then 1 else 0

def unfinished : Upipe → Nat
  | .normal y => y.items.length - y.f
  | .conflate _ => 0

def drain : Nat → Upipe → List Msg
  | 0, _ => []
  | n + 1, u =>
    match u.read with
    | (some m, u') => m :: drain n u'
    | (none, _) => []

/-- The loop of `pipe_t::read` that skips credentials. -/
def readData : Nat → Upipe → Option Msg × Upipe
  | 0, u => u.read
  | n + 1, u =>
    match u.read with
    | (some m, u') => if m.isCredential then readData n u' else (some m, u')
    | (none, u') => (none, u')

/-- The loop of `pipe_t::rollback`, `none` being its failed assertion that an
    unwritten message has the MORE flag. -/
def rollback : Nat → Upipe → Option Upipe
  | 0, u => some u
  | n + 1, u =>
    match u.unwrite with
    | none => some u
    | some (m, u') => if m.more then rollback n u' else none

/-- The frames after the last finished message all announce a continuation. -/
def Unfinished (y : Ypipe Msg) : Prop := ∀ m ∈ y.items.drop y.f, m.more = true

/-- What the read loop of a pipe does to a lock-free queue: it either finds
    nothing but credentials and leaves the reader asleep, or returns the first
    message that is none. -/
theorem readData_normal (n : Nat) (y : Ypipe Msg) (enough : y.w - y.front ≤ n) :
    ∃ y' : Ypipe Msg, (readData n (.normal y)).2 = .normal y' ∧
      y'.items = y.items ∧ y'.w = y.w ∧ y'.f = y.f ∧
      match (readData n (.normal y)).1 with
      | none => y'.front = y.w ∧ y'.c = none ∧ ∀ m ∈ y.unread, m.isCredential = true
      | some m => m.isCredential = false ∧ y'.c = y.c ∧ ∃ skipped,
          (∀ k ∈ skipped, k.isCredential = true) ∧ y.unread = skipped ++ m :: y'.unread ∧
          y'.front = y.front + skipped.length + 1 := by
  induction n generalizing y with
  | zero =>
    have := y.front_le_w
    have none_left : y.front = y.w := by omega
    obtain ⟨stuck, same, null⟩ := Ypipe.read_of_eq none_left
    refine ⟨y.read.2, rfl, by simp, by simp, by simp, ?_⟩
    simp only [readData, read, stuck]
    exact ⟨by rw [same, none_left], null, by simp [Ypipe.unread_of_eq none_left]⟩
  | succ n ih =>
    have := y.front_le_w
    by_cases left : y.front < y.w
    · obtain ⟨value, moved, same_c⟩ := Ypipe.read_of_lt left
      have unread_eq := Ypipe.unread_of_lt left
      by_cases cred : (y.items.get ⟨y.front, Ypipe.lt_length left⟩).isCredential = true
      · have onward : readData (n + 1) (.normal y) = readData n (.normal y.read.2) := by
          simp only [readData, read, value, cred, if_true]
        rw [onward]
        obtain ⟨y', shape, items, w, f, outcome⟩ :=
          ih y.read.2 (by rw [moved, Ypipe.read_w]; omega)
        refine ⟨y', shape, by simpa using items, by simpa using w, by simpa using f, ?_⟩
        cases found : (readData n (.normal y.read.2)).1 with
        | none =>
          simp only [found] at outcome ⊢
          obtain ⟨at_end, null, all⟩ := outcome
          refine ⟨by simpa using at_end, null, ?_⟩
          intro m member
          rw [unread_eq] at member
          rcases List.mem_cons.mp member with rfl | later
          · exact cred
          · exact all m later
        | some m =>
          simp only [found] at outcome ⊢
          obtain ⟨data, keeps, skipped, all, split, position⟩ := outcome
          refine ⟨data, by rw [keeps, same_c],
            y.items.get ⟨y.front, Ypipe.lt_length left⟩ :: skipped, ?_, ?_, ?_⟩
          · intro k member
            rcases List.mem_cons.mp member with rfl | later
            · exact cred
            · exact all k later
          · rw [unread_eq, split]
            rfl
          · rw [position, moved]
            simp only [List.length_cons]
            omega
      · have onward : readData (n + 1) (.normal y) =
            (some (y.items.get ⟨y.front, Ypipe.lt_length left⟩), .normal y.read.2) := by
          simp only [readData, read, value, if_neg cred]
        rw [onward]
        refine ⟨y.read.2, rfl, by simp, by simp, by simp, ?_⟩
        exact ⟨by simpa using cred, same_c, [], by simp, by simpa using unread_eq, by simpa using moved⟩
    · have none_left : y.front = y.w := by omega
      obtain ⟨stuck, same, null⟩ := Ypipe.read_of_eq none_left
      refine ⟨y.read.2, by simp only [readData, read, stuck], by simp, by simp, by simp, ?_⟩
      simp only [readData, read, stuck]
      exact ⟨by rw [same, none_left], null, by simp [Ypipe.unread_of_eq none_left]⟩

/-- `u'` is what is left of `u` when its reader found no message, at most
    credentials, and went to sleep. -/
inductive Dry : Upipe → Upipe → Prop where
  | normal {y y' : Ypipe Msg} : y'.items = y.items → y'.w = y.w → y'.f = y.f →
      y'.front = y.w → y'.c = none → (∀ m ∈ y.unread, m.isCredential = true) →
      Dry (.normal y) (.normal y')
  | conflate {p p' : YpipeConflate} : Dry (.conflate p) (.conflate p')

/-- `u'` is what is left of `u` when its reader took `m`, and credentials in
    front of it. -/
inductive Takes (m : Msg) : Upipe → Upipe → Prop where
  | normal {y y' : Ypipe Msg} (skipped : List Msg) : y'.items = y.items → y'.w = y.w →
      y'.f = y.f → y'.c = y.c → (∀ k ∈ skipped, k.isCredential = true) →
      y.unread = skipped ++ m :: y'.unread → y'.front = y.front + skipped.length + 1 →
      Takes m (.normal y) (.normal y')
  | conflate {p p' : YpipeConflate} : Takes m (.conflate p) (.conflate p')

/-- `u'` is `u` after a look at its first message. -/
inductive Peeked : Upipe → Upipe → Prop where
  | normal {y y' : Ypipe Msg} : y'.items = y.items → y'.w = y.w → y'.f = y.f →
      y'.front = y.front → y'.c = y.c → y.front < y.w → Peeked (.normal y) (.normal y')
  | conflate {p p' : YpipeConflate} : Peeked (.conflate p) (.conflate p')

inductive Read (u : Upipe) : Upipe → Prop where
  | alone : Read u u
  | dry {u' : Upipe} : u.Dry u' → Read u u'
  | takes {u' : Upipe} {m : Msg} : u.Takes m u' → Read u u'
  | peeked {u' : Upipe} : u.Peeked u' → Read u u'

theorem Read.writer {u u' : Upipe} (read : u.Read u') :
    (∃ y y' : Ypipe Msg, u = .normal y ∧ u' = .normal y' ∧ y'.items = y.items ∧ y'.w = y.w ∧
      y'.f = y.f) ∨ ∃ p p' : YpipeConflate, u = .conflate p ∧ u' = .conflate p' := by
  cases read with
  | alone => cases u <;> simp
  | dry how | peeked how =>
    cases how with
    | normal items w f => exact .inl ⟨_, _, rfl, rfl, items, w, f⟩
    | conflate => exact .inr ⟨_, _, rfl, rfl⟩
  | takes how =>
    cases how with
    | normal skipped items w f => exact .inl ⟨_, _, rfl, rfl, items, w, f⟩
    | conflate => exact .inr ⟨_, _, rfl, rfl⟩

theorem readData_conflate (n : Nat) (p : YpipeConflate) (enough : pending (.conflate p) ≤ n) :
    (∃ p', (readData n (.conflate p)).2 = .conflate p') ∧
      ∀ m, (readData n (.conflate p)).1 = some m → m.isCredential = false := by
  induction n generalizing p with
  | zero =>
    cases here : p.dbuffer.hasMsg with
    | true => simp [pending, here] at enough
    | false =>
      simp [readData, read, YpipeConflate.read, YpipeConflate.checkRead, here]
  | succ n ih =>
    cases here : p.dbuffer.hasMsg with
    | false =>
      simp [readData, read, YpipeConflate.read, YpipeConflate.checkRead, here]
    | true =>
      have value : read (.conflate p) = (some p.dbuffer.front,
          .conflate { p with dbuffer := { p.dbuffer with front := .init, hasMsg := false } }) := by
        simp [read, YpipeConflate.read, YpipeConflate.checkRead, Dbuffer.read, here]
      by_cases cred : p.dbuffer.front.isCredential = true
      · simp only [readData, value, cred]
        exact ih _ (by simp [pending])
      · simp only [readData, value, if_neg cred]
        exact ⟨⟨_, rfl⟩, fun m same => by obtain rfl := Option.some.inj same; simpa using cred⟩

theorem readData_outcome (u : Upipe) :
    (∃ u', u.readData u.pending = (none, u') ∧ Dry u u') ∨
      ∃ m u', u.readData u.pending = (some m, u') ∧ m.isCredential = false ∧ Takes m u u' := by
  rcases result : u.readData u.pending with ⟨got, u'⟩
  cases u with
  | normal y =>
    obtain ⟨y', shape, items, w, f, outcome⟩ := readData_normal _ y (Nat.le_refl _)
    simp only [pending] at result
    simp only [result] at shape outcome
    subst shape
    cases got with
    | none => exact .inl ⟨_, rfl, .normal items w f outcome.1 outcome.2.1 outcome.2.2⟩
    | some m =>
      obtain ⟨data, keeps, skipped, all, split, position⟩ := outcome
      exact .inr ⟨m, _, rfl, data, .normal skipped items w f keeps all split position⟩
  | conflate p =>
    obtain ⟨⟨p', shape⟩, data⟩ := readData_conflate _ p (Nat.le_refl _)
    simp only [result] at shape data
    subst shape
    cases got with
    | none => exact .inl ⟨_, rfl, .conflate⟩
    | some m => exact .inr ⟨m, _, rfl, data m rfl, .conflate⟩

theorem checkRead_dry {u : Upipe} (empty : u.checkRead.1 = false) : Dry u u.checkRead.2 := by
  cases u with
  | conflate p => exact .conflate
  | normal y =>
    have := y.front_le_w
    have none_left : y.front = y.w := by
      have : ¬ y.front < y.w := by simpa [checkRead, Ypipe.checkRead_fst] using empty
      omega
    refine .normal (by simp) (by simp) (by simp) (by simpa using none_left)
      (Ypipe.checkRead_of_eq none_left).2.2 ?_
    simp [Ypipe.unread_of_eq none_left]

theorem checkRead_ready {u : Upipe} (ready : u.checkRead.1 = true) :
    Peeked u u.checkRead.2 ∧ ∃ m u', u.checkRead.2.probe Msg.isDelimiter = some m.isDelimiter ∧
      u.checkRead.2.read = (some m, u') ∧ Takes m u u' := by
  cases u with
  | conflate p =>
    have here : p.dbuffer.hasMsg = true := by
      by_contra no
      simp [checkRead, YpipeConflate.checkRead, no] at ready
    have awake : checkRead (.conflate p) = (true, .conflate p) := by
      simp [checkRead, YpipeConflate.checkRead, here]
    have value : p.read.1 = some p.dbuffer.front := by
      simp [YpipeConflate.read, YpipeConflate.checkRead, Dbuffer.read, here]
    rw [awake]
    exact ⟨.conflate, p.dbuffer.front, .conflate p.read.2, rfl, by rw [← value]; rfl, .conflate⟩
  | normal y =>
    have left : y.front < y.w := by simpa [checkRead, Ypipe.checkRead_fst] using ready
    have left' : y.checkRead.2.front < y.checkRead.2.w := by simpa using left
    obtain ⟨value, moved, keeps⟩ := Ypipe.read_of_lt left'
    obtain ⟨-, -, same_c⟩ := Ypipe.checkRead_of_lt left
    refine ⟨.normal (by simp) (by simp) (by simp) (by simp) same_c left,
      y.items.get ⟨y.front, Ypipe.lt_length left⟩, .normal y.checkRead.2.read.2, ?_, ?_, ?_⟩
    · simp only [checkRead, probe, Ypipe.probe, (Ypipe.checkRead_of_lt left').1]
      simp [List.getElem?_eq_getElem (Ypipe.lt_length left)]
    · simp only [checkRead, read, value]
      simp
    · refine .normal [] (by simp) (by simp) (by simp) (by rw [keeps, same_c]) (by simp) ?_
        (by simpa using moved)
      rw [Ypipe.unread_of_lt left]
      simp [Ypipe.unread, moved, (Ypipe.read_of_lt left).2.1]

theorem rollback_normal (n : Nat) (y : Ypipe Msg) (enough : y.items.length - y.f ≤ n)
    (unfinished : Unfinished y) :
    ∃ y' : Ypipe Msg, rollback n (.normal y) = some (.normal y') ∧
      y'.items = y.items.take y.f ∧ y'.front = y.front ∧ y'.w = y.w ∧ y'.f = y.f ∧ y'.c = y.c := by
  induction n generalizing y with
  | zero =>
    have := y.f_le_back
    have finished : y.f = y.items.length := by omega
    exact ⟨y, rfl, by simp [finished], rfl, rfl, rfl, rfl⟩
  | succ n ih =>
    by_cases open_group : y.f < y.items.length
    · obtain ⟨m, y', step, split, front, w, f, c⟩ := Ypipe.unwrite_of_lt open_group
      have shorter : y.items.length = y'.items.length + 1 := by simp [split]
      have marked : m.more = true := by
        apply unfinished m
        rw [split, List.drop_append_of_le_length (by omega)]
        simp
      have rest : Unfinished y' := by
        intro k member
        apply unfinished k
        rw [split, List.drop_append_of_le_length (by omega), ← f]
        exact List.mem_append_left _ member
      obtain ⟨z, ends, items, front', w', f', c'⟩ := ih y' (by omega) rest
      refine ⟨z, ?_, ?_, by omega, by omega, by omega, by rw [c', c]⟩
      · simp only [rollback, unwrite, step, Option.map_some, marked]
        exact ends
      · rw [items, f, split, List.take_append_of_le_length (by omega)]
    · have := y.f_le_back
      have finished : y.f = y.items.length := by omega
      refine ⟨y, ?_, by simp [finished], rfl, rfl, rfl, rfl⟩
      simp only [rollback, unwrite, Ypipe.unwrite_of_eq finished, Option.map_none]

/-- `u'` is `u` without the frames of an unfinished message. -/
inductive Cut : Upipe → Upipe → Prop where
  | normal {y y' : Ypipe Msg} : y'.items = y.items.take y.f → y'.front = y.front → y'.w = y.w →
      y'.f = y.f → y'.c = y.c → Cut (.normal y) (.normal y')
  | conflate {p : YpipeConflate} : Cut (.conflate p) (.conflate p)

/-- What every queue of a pipe keeps: a rollback meets no finished message. -/
def Tidy : Upipe → Prop
  | .normal y => Unfinished y
  | .conflate _ => True

variable {u u' : Upipe} {m k : Msg}

theorem rollback_outcome (tidy : u.Tidy) : ∃ u', u.rollback u.unfinished = some u' ∧ Cut u u' := by
  cases u with
  | normal y =>
    obtain ⟨y', ends, items, front, w, f, c⟩ := rollback_normal _ y (Nat.le_refl _) tidy
    exact ⟨.normal y', ends, .normal items front w f c⟩
  | conflate p => exact ⟨.conflate p, rfl, .conflate⟩

theorem new_tidy (conflate : Bool) : (new conflate).Tidy := by
  cases conflate <;> simp [new, Tidy, Unfinished]

theorem write_tidy {incomplete : Bool} (lock : Bool) (marked : incomplete = true → m.more = true)
    (tidy : u.Tidy) : (u.write m incomplete lock).Tidy := by
  cases u with
  | conflate p => trivial
  | normal y =>
    intro k member
    cases incomplete with
    | false => simp at member
    | true =>
      rw [Ypipe.write_items, Ypipe.write_f, if_pos rfl,
        List.drop_append_of_le_length y.f_le_back] at member
      exact List.forall_mem_append.mpr ⟨tidy, List.forall_mem_singleton.mpr (marked rfl)⟩ k member

theorem flush_tidy (tidy : u.Tidy) : u.flush.2.Tidy := by
  cases u with
  | conflate p => trivial
  | normal y =>
    intro k member
    rw [Ypipe.flush_items, Ypipe.flush_f] at member
    exact tidy k member

def lockFree : Upipe → Bool
  | .normal _ => true
  | .conflate _ => false

theorem lockFree_iff : u.lockFree = true ↔ ∃ y, u = .normal y := by
  cases u <;> simp [lockFree]

@[simp] theorem lockFree_write (m : Msg) (i l : Bool) : (u.write m i l).lockFree = u.lockFree := by
  cases u <;> rfl
@[simp] theorem lockFree_flush : u.flush.2.lockFree = u.lockFree := by cases u <;> rfl

theorem Read.lockFree (read : u.Read u') : u'.lockFree = u.lockFree := by
  obtain ⟨y, y', rfl, rfl, -⟩ | ⟨p, p', rfl, rfl⟩ := read.writer <;> rfl

theorem Cut.lockFree (cut : Cut u u') : u'.lockFree = u.lockFree := by cases cut <;> rfl

theorem Read.tidy (read : u.Read u') (tidy : u.Tidy) : u'.Tidy := by
  obtain ⟨y, y', rfl, rfl, items, w, f⟩ | ⟨p, p', rfl, rfl⟩ := read.writer
  · intro k member
    rw [items, f] at member
    exact tidy k member
  · trivial

theorem Cut.tidy (cut : Cut u u') : u'.Tidy := by
  cases cut with
  | conflate => trivial
  | normal items front w f =>
    intro k member
    rw [items, f, List.drop_eq_nil_of_le (by rw [List.length_take]; omega)] at member
    cases member

def items : Upipe → List Msg
  | .normal y => y.items
  | .conflate _ => []

theorem Read.items (read : u.Read u') : u'.items = u.items := by
  obtain ⟨y, y', rfl, rfl, items, w, f⟩ | ⟨p, p', rfl, rfl⟩ := read.writer
  · exact items
  · rfl

theorem Cut.mem_items (cut : Cut u u') (member : k ∈ u'.items) : k ∈ u.items := by
  cases cut with
  | normal same =>
    rw [Upipe.items, same] at member
    exact List.mem_of_mem_take member
  | conflate => exact member

theorem mem_items_write {inc lock : Bool} (member : k ∈ (u.write m inc lock).items) :
    k ∈ u.items ∨ k = m := by
  cases u with
  | normal y => simpa [Upipe.items, write] using member
  | conflate p => cases member

@[simp] theorem items_flush (u : Upipe) : u.flush.2.items = u.items := by
  cases u with
  | normal y => exact Ypipe.flush_items y
  | conflate p => rfl

@[simp] theorem items_new (conflate : Bool) : (new conflate).items = [] := by
  cases conflate <;> rfl

theorem Takes.mem_items (takes : Takes m u u') (free : u.lockFree = true) : m ∈ u.items := by
  cases takes with
  | conflate => cases free
  | @normal y y' skipped items w f c creds split =>
    have : m ∈ y.unread := by rw [split]; simp
    exact List.mem_of_mem_take (List.mem_of_mem_drop this)

end Upipe

end Zmq
