import VBitcoin.CheckWork
import VBitcoin.FairRuns

/-!
**Parallel script checking** (`checkqueue.h`) — a master adds checks to a stack, workers take
batches, and in `Wait` the master joins them.  Each critical section of `Loop`, each check and
each wake-up is a step, so that any schedule is a list of actions.  A thread is `entering` or
`woken` (about to take the lock), `working` or `waiting`.  `WorkState` is the accounting
without `nIdle`, `nTotal` and the condition variables.
-/

namespace VBitcoin

/-! ### Where a thread stands -/

inductive LoopPoint (T : Type) where
  | outside
  | entering
  | waiting
  | woken
  | working (batch : Batch T)
  deriving DecidableEq

namespace LoopPoint

variable {T : Type}

def batch : LoopPoint T → Option (Batch T)
  | .working b => some b
  | _ => none

def wakeUp : LoopPoint T → LoopPoint T
  | .waiting => .woken
  | p => p

def isWaiting : LoopPoint T → Bool
  | .waiting => true
  | _ => false

def isOutside : LoopPoint T → Bool
  | .outside => true
  | _ => false

theorem batch_wakeUp (p : LoopPoint T) : p.wakeUp.batch = p.batch := by
  cases p <;> rfl

variable {p : LoopPoint T}

theorem isWaiting_eq (h : p.isWaiting = true) : p = .waiting := by
  cases p <;> first | rfl | cases h

theorem isOutside_eq (h : p.isOutside = true) : p = .outside := by
  cases p <;> first | rfl | cases h

end LoopPoint

/-! ### The queue -/

/-- The back of the vector comes first; each thread stands somewhere in `Loop`. -/
structure CCheckQueue (T : Type) (n : Nat) where
  queue : List T
  nIdle : Nat
  nTotal : Nat
  fAllOk : Bool
  nTodo : UInt32
  fDone : Option Bool
  thread : ThreadId n → LoopPoint T
  added : List T
  executed : List T
  skipped : List T
  sessions : List (CheckSession T)

/-- The calls of the master, a worker starting, a wake-up (also spurious), a thread running on.
    `Add` of a single check wakes the worker `notified`. -/
inductive QueueAction (T : Type) (n : Nat) where
  | construct
  | add (vChecks : List T) (notified : Option (Fin n))
  | wait
  | destroy
  | start (worker : Fin n)
  | wake (t : ThreadId n)
  | run (t : ThreadId n)

namespace CCheckQueue

variable {T : Type} {n : Nat}

def new : CCheckQueue T n where
  queue := []
  nIdle := 0
  nTotal := 0
  fAllOk := true
  nTodo := 0
  fDone := none
  thread := fun _ => .outside
  added := []
  executed := []
  skipped := []
  sessions := []

def setThread (t : ThreadId n) (p : LoopPoint T) (s : CCheckQueue T n) : CCheckQueue T n :=
  { s with thread := Function.update s.thread t p }

/-- `condMaster.notify_one()`: only the master waits there. -/
def notifyMaster (s : CCheckQueue T n) : CCheckQueue T n :=
  s.setThread none (s.thread none).wakeUp

def notifyAll (s : CCheckQueue T n) : CCheckQueue T n :=
  { s with
    thread := fun t => match t with
      | none => s.thread none
      | some i => (s.thread (some i)).wakeUp }

/-- `condWorker.notify_one()`: one waiting worker, or none when nobody waits. -/
def notifyOne (notified : Option (Fin n)) (s : CCheckQueue T n) : Option (CCheckQueue T n) :=
  match notified with
  | some i => if (s.thread (some i)).isWaiting then some (s.setThread (some i) .woken) else none
  | none => if ∀ i : Fin n, (s.thread (some i)).isWaiting = false then some s else none

def push (vChecks : List T) (s : CCheckQueue T n) : CCheckQueue T n :=
  { s with
    queue := vChecks.reverse ++ s.queue
    nTodo := s.nTodo + UInt32.ofNat vChecks.length
    added := s.added ++ vChecks }

def add (vChecks : List T) (notified : Option (Fin n)) (s : CCheckQueue T n) :
    Option (CCheckQueue T n) :=
  match vChecks with
  | [] => some (s.push vChecks)
  | [_] => (s.push vChecks).notifyOne notified
  | _ => some (s.push vChecks).notifyAll

/-- `fAllOk &= fOk; nTodo -= nNow`; the thread has no batch any more. -/
def report (t : ThreadId n) (nNow : Nat) (fOk : Bool) (s : CCheckQueue T n) : CCheckQueue T n :=
  { s with
    fAllOk := s.fAllOk && fOk
    nTodo := s.nTodo - UInt32.ofNat nNow
    thread := Function.update s.thread t .entering }

def cleanUp (t : ThreadId n) (nNow : Nat) (fOk : Bool) (s : CCheckQueue T n) : CCheckQueue T n :=
  if (s.report t nNow fOk).nTodo = 0 ∧ t ≠ none then (s.report t nNow fOk).notifyMaster
  else s.report t nNow fOk

/-- The master's return: the status is reset for new work later. -/
def finish (s : CCheckQueue T n) : CCheckQueue T n :=
  { s with
    nTotal := s.nTotal - 1
    fAllOk := true
    fDone := some true
    thread := Function.update s.thread none .outside
    added := []
    executed := []
    skipped := []
    sessions := ⟨s.added, s.executed, s.fAllOk, s.nTodo, s.queue⟩ :: s.sessions }

def idle (t : ThreadId n) (s : CCheckQueue T n) : CCheckQueue T n :=
  { s with
    nIdle := s.nIdle + 1
    thread := Function.update s.thread t .waiting }

def batchSize (nBatchSize : Nat) (s : CCheckQueue T n) : Nat :=
  max 1 (min nBatchSize (s.queue.length % 2 ^ 32 / (s.nTotal + s.nIdle + 1)))

def takeBatch (nBatchSize : Nat) (t : ThreadId n) (s : CCheckQueue T n) : CCheckQueue T n :=
  let nNow := s.batchSize nBatchSize
  { s with
    queue := s.queue.drop nNow
    thread := Function.update s.thread t (.working ⟨s.queue.take nNow, nNow, s.fAllOk⟩) }

/-- From `while (queue.empty())` to the next wait or release of the lock. -/
def proceed (nBatchSize : Nat) (t : ThreadId n) (s : CCheckQueue T n) : CCheckQueue T n :=
  if s.queue.isEmpty then
    if t = none ∧ s.nTodo = 0 then s.finish else s.idle t
  else s.takeBatch nBatchSize t

def check (eval : T → Bool) (t : ThreadId n) (c : T) (rest : List T) (nNow : Nat) (fOk : Bool)
    (s : CCheckQueue T n) : CCheckQueue T n :=
  if fOk then
    { s with
      executed := c :: s.executed
      thread := Function.update s.thread t (.working ⟨rest, nNow, eval c⟩) }
  else
    { s with
      skipped := c :: s.skipped
      thread := Function.update s.thread t (.working ⟨rest, nNow, false⟩) }

def enter (s : CCheckQueue T n) : CCheckQueue T n := { s with nTotal := s.nTotal + 1 }

def leaveIdle (s : CCheckQueue T n) : CCheckQueue T n := { s with nIdle := s.nIdle - 1 }

def loop (nBatchSize : Nat) (eval : T → Bool) (t : ThreadId n) (s : CCheckQueue T n) :
    Option (CCheckQueue T n) :=
  match s.thread t with
  | .outside => none
  | .waiting => none
  | .entering => some (s.enter.proceed nBatchSize t)
  | .woken => some (s.leaveIdle.proceed nBatchSize t)
  | .working ⟨[], nNow, fOk⟩ => some ((s.cleanUp t nNow fOk).proceed nBatchSize t)
  | .working ⟨c :: rest, nNow, fOk⟩ => some (s.check eval t c rest nNow fOk)

def setDone (fDone : Option Bool) (s : CCheckQueue T n) : CCheckQueue T n :=
  { s with fDone := fDone }

/-- A control holds `ControlMutex`; its destructor waits if nobody did. -/
def step (nBatchSize : Nat) (eval : T → Bool) (a : QueueAction T n) (s : CCheckQueue T n) :
    Option (CCheckQueue T n) :=
  match a with
  | .construct => if s.fDone = none then some (s.setDone (some false)) else none
  | .add vChecks notified =>
    if s.fDone = some false ∧ (s.thread none).isOutside then s.add vChecks notified else none
  | .wait =>
    if s.fDone ≠ none ∧ (s.thread none).isOutside then some (s.setThread none .entering) else none
  | .destroy =>
    if s.fDone = some true ∧ (s.thread none).isOutside then some (s.setDone none) else none
  | .start i =>
    if (s.thread (some i)).isOutside then some (s.setThread (some i) .entering) else none
  | .wake t => if (s.thread t).isWaiting then some (s.setThread t .woken) else none
  | .run t => s.loop nBatchSize eval t

@[simp] theorem thread_report (t : ThreadId n) (nNow : Nat) (fOk : Bool) (s : CCheckQueue T n) :
    (s.report t nNow fOk).thread = Function.update s.thread t .entering := rfl

@[simp] theorem thread_finish (s : CCheckQueue T n) :
    s.finish.thread = Function.update s.thread none .outside := rfl

@[simp] theorem thread_idle (t : ThreadId n) (s : CCheckQueue T n) :
    (s.idle t).thread = Function.update s.thread t .waiting := rfl

@[simp] theorem thread_takeBatch (nBatchSize : Nat) (t : ThreadId n) (s : CCheckQueue T n) :
    (s.takeBatch nBatchSize t).thread = Function.update s.thread t
      (.working ⟨s.queue.take (s.batchSize nBatchSize), s.batchSize nBatchSize, s.fAllOk⟩) := rfl

@[simp] theorem thread_check (eval : T → Bool) (t : ThreadId n) (c : T) (rest : List T)
    (nNow : Nat) (fOk : Bool) (s : CCheckQueue T n) :
    (s.check eval t c rest nNow fOk).thread =
      Function.update s.thread t (.working ⟨rest, nNow, fOk && eval c⟩) := by
  cases fOk <;> rfl

def view (s : CCheckQueue T n) : WorkState T n where
  queue := s.queue
  fAllOk := s.fAllOk
  nTodo := s.nTodo
  batches := fun t => (s.thread t).batch
  fDone := s.fDone
  added := s.added
  executed := s.executed
  skipped := s.skipped
  sessions := s.sessions

/-! ### The code's operations on the accounting -/

section View

variable (s : CCheckQueue T n)

theorem batch_update (t : ThreadId n) (p : LoopPoint T) :
    (fun u => (Function.update s.thread t p u).batch) =
      Function.update s.view.batches t p.batch := by
  funext u
  by_cases hu : u = t
  · subst hu
    rw [Function.update_self, Function.update_self]
  · rw [Function.update_of_ne hu, Function.update_of_ne hu]
    rfl

variable {t : ThreadId n} {notified : Option (Fin n)} {s' : CCheckQueue T n}

theorem view_setThread {p : LoopPoint T} (hp : p.batch = (s.thread t).batch) :
    (s.setThread t p).view = s.view := by
  have hbatches : Function.update s.view.batches t p.batch = s.view.batches := by
    rw [hp]
    exact Function.update_eq_self t s.view.batches
  simp only [view, setThread, batch_update]
  exact congrArg (fun b => { s.view with batches := b }) hbatches

@[simp] theorem view_notifyMaster : s.notifyMaster.view = s.view :=
  view_setThread s (LoopPoint.batch_wakeUp _)

@[simp] theorem view_notifyAll : s.notifyAll.view = s.view := by
  have hbatches : (fun t => (s.notifyAll.thread t).batch) = fun t => (s.thread t).batch := by
    funext t
    cases t with
    | none => rfl
    | some i => exact LoopPoint.batch_wakeUp _
  exact congrArg (fun b => { s.view with batches := b }) hbatches

theorem notifyOne_view (h : s.notifyOne notified = some s') : s'.view = s.view := by
  cases notified with
  | none =>
    obtain ⟨-, ⟨⟩⟩ := Option.ite_none_right_eq_some.mp h
    rfl
  | some i =>
    obtain ⟨hwaiting, ⟨⟩⟩ := Option.ite_none_right_eq_some.mp h
    apply view_setThread
    rw [LoopPoint.isWaiting_eq hwaiting]
    rfl

theorem add_view {vChecks : List T}
    (h : s.add vChecks notified = some s') : s'.view = s.view.add vChecks := by
  match vChecks with
  | [] =>
    obtain rfl := Option.some.inj h
    rfl
  | [c] => exact notifyOne_view _ h
  | c :: d :: rest =>
    obtain rfl := Option.some.inj h
    exact view_notifyAll _

theorem view_report (t : ThreadId n) (nNow : Nat) (fOk : Bool) :
    (s.report t nNow fOk).view = s.view.cleanUp t nNow fOk := by
  simp only [view, report, batch_update]
  rfl

theorem view_cleanUp (t : ThreadId n) (nNow : Nat) (fOk : Bool) :
    (s.cleanUp t nNow fOk).view = s.view.cleanUp t nNow fOk := by
  rw [← view_report, cleanUp]
  split
  · exact view_notifyMaster _
  · rfl

theorem view_finish (h : (s.thread none).batch = none) : s.finish.view = s.view.finish := by
  have hbatches := congrArg WorkState.batches (view_setThread s (p := .outside) h.symm)
  exact congrArg (fun b => { s.view.finish with batches := b }) hbatches

theorem view_idle (h : (s.thread t).batch = none) : (s.idle t).view = s.view :=
  view_setThread s (p := .waiting) h.symm

theorem view_takeBatch (nBatchSize : Nat) (t : ThreadId n) :
    (s.takeBatch nBatchSize t).view = s.view.take t (s.batchSize nBatchSize) := by
  simp only [view, takeBatch, batch_update]
  rfl

theorem view_check (eval : T → Bool) (t : ThreadId n) (c : T) (rest : List T) (nNow : Nat)
    (fOk : Bool) : (s.check eval t c rest nNow fOk).view =
      if fOk then s.view.execute eval t c rest nNow else s.view.skip t c rest nNow := by
  cases fOk with
  | true =>
    simp only [view, check, if_true, batch_update]
    rfl
  | false =>
    simp only [view, check, Bool.false_eq_true, if_false, batch_update]
    rfl

end View

/-! ### The code's steps as steps of the accounting -/

section Simulation

open Relation

variable {nBatchSize : Nat} {eval : T → Bool} {s s' : CCheckQueue T n} {t : ThreadId n}

theorem batchSize_pos (nBatchSize : Nat) (s : CCheckQueue T n) : 0 < s.batchSize nBatchSize :=
  Nat.lt_of_lt_of_le Nat.one_pos (le_max_left _ _)

theorem batchSize_le (hqueue : s.queue ≠ []) : s.batchSize nBatchSize ≤ s.queue.length := by
  have hshare : s.queue.length % 2 ^ 32 / (s.nTotal + s.nIdle + 1) ≤ s.queue.length :=
    (Nat.div_le_self _ _).trans (Nat.mod_le _ _)
  exact max_le (List.length_pos_iff.mpr hqueue) ((min_le_right _ _).trans hshare)

theorem proceed_view (ht : (s.thread t).batch = none) :
    ReflGen (WorkState.WorkStep eval) s.view (s.proceed nBatchSize t).view := by
  rw [proceed]
  by_cases hqueue : s.queue = []
  · rw [if_pos (List.isEmpty_iff.mpr hqueue)]
    split
    · rename_i hdone
      obtain ⟨rfl, htodo⟩ := hdone
      rw [view_finish s ht]
      exact .single (.finish hqueue htodo)
    · rw [view_idle s ht]
  · rw [if_neg (mt List.isEmpty_iff.mp hqueue), view_takeBatch]
    exact .single (.take ht (batchSize_pos nBatchSize s) (batchSize_le hqueue))

theorem batch_cleanUp (s : CCheckQueue T n) (t : ThreadId n) (nNow : Nat) (fOk : Bool) :
    ((s.cleanUp t nNow fOk).thread t).batch = none := by
  have hview : (s.cleanUp t nNow fOk).view.batches t = (s.view.cleanUp t nNow fOk).batches t :=
    congrArg (fun w => w.batches t) (view_cleanUp s t nNow fOk)
  rw [show (s.view.cleanUp t nNow fOk).batches = Function.update s.view.batches t none from rfl,
    Function.update_self] at hview
  exact hview

theorem loop_cases (h : s.loop nBatchSize eval t = some s') :
    (s.thread t = .entering ∧ s' = s.enter.proceed nBatchSize t) ∨
    (s.thread t = .woken ∧ s' = s.leaveIdle.proceed nBatchSize t) ∨
    (∃ nNow fOk, s.thread t = .working ⟨[], nNow, fOk⟩ ∧
      s' = (s.cleanUp t nNow fOk).proceed nBatchSize t) ∨
    ∃ c rest nNow fOk, s.thread t = .working ⟨c :: rest, nNow, fOk⟩ ∧
      s' = s.check eval t c rest nNow fOk := by
  rw [loop] at h
  split at h <;> cases h
  · exact .inl ⟨‹_›, rfl⟩
  · exact .inr (.inl ⟨‹_›, rfl⟩)
  · exact .inr (.inr (.inl ⟨_, _, ‹_›, rfl⟩))
  · exact .inr (.inr (.inr ⟨_, _, _, _, ‹_›, rfl⟩))

theorem loop_view (h : s.loop nBatchSize eval t = some s') :
    ∃ w, ReflGen WorkState.CleansUp s.view w ∧ ReflGen (WorkState.WorkStep eval) w s'.view := by
  rcases loop_cases h with
    ⟨ht, rfl⟩ | ⟨ht, rfl⟩ | ⟨nNow, fOk, ht, rfl⟩ | ⟨c, rest, nNow, fOk, ht, rfl⟩
  · exact ⟨s.enter.view, .refl, proceed_view (by rw [enter, ht]; rfl)⟩
  · exact ⟨s.leaveIdle.view, .refl, proceed_view (by rw [leaveIdle, ht]; rfl)⟩
  · have hbatch : s.view.batches t = some ⟨[], nNow, fOk⟩ := by
      simp only [view, ht]
      rfl
    refine ⟨(s.cleanUp t nNow fOk).view, ?_, proceed_view (batch_cleanUp s t nNow fOk)⟩
    rw [view_cleanUp]
    exact .single (.cleanUp hbatch)
  · have hbatch : s.view.batches t = some ⟨c :: rest, nNow, fOk⟩ := by
      simp only [view, ht]
      rfl
    refine ⟨s.view, .refl, ?_⟩
    rw [view_check]
    cases fOk with
    | true => exact .single (.execute hbatch)
    | false => exact .single (.skip hbatch)

variable {a : QueueAction T n}

/-- **The code's steps are steps of the accounting.** -/
theorem step_view (h : step nBatchSize eval a s = some s') :
    ∃ w, ReflGen WorkState.CleansUp s.view w ∧ ReflGen (WorkState.WorkStep eval) w s'.view := by
  cases a with
  | construct =>
    obtain ⟨hdone, ⟨⟩⟩ := Option.ite_none_right_eq_some.mp h
    exact ⟨s.view, .refl, .single (.construct hdone)⟩
  | add vChecks notified =>
    obtain ⟨⟨hdone, -⟩, hadd⟩ := Option.ite_none_right_eq_some.mp h
    refine ⟨s.view, .refl, ?_⟩
    rw [add_view s hadd]
    exact .single (.add vChecks hdone)
  | wait =>
    obtain ⟨⟨-, houtside⟩, ⟨⟩⟩ := Option.ite_none_right_eq_some.mp h
    refine ⟨s.view, .refl, ?_⟩
    rw [view_setThread s (by rw [LoopPoint.isOutside_eq houtside]; rfl)]
  | destroy =>
    obtain ⟨⟨hdone, -⟩, ⟨⟩⟩ := Option.ite_none_right_eq_some.mp h
    exact ⟨s.view, .refl, .single (.destroy hdone)⟩
  | start i =>
    obtain ⟨houtside, ⟨⟩⟩ := Option.ite_none_right_eq_some.mp h
    refine ⟨s.view, .refl, ?_⟩
    rw [view_setThread s (by rw [LoopPoint.isOutside_eq houtside]; rfl)]
  | wake t =>
    obtain ⟨hwaiting, ⟨⟩⟩ := Option.ite_none_right_eq_some.mp h
    refine ⟨s.view, .refl, ?_⟩
    rw [view_setThread s (by rw [LoopPoint.isWaiting_eq hwaiting]; rfl)]
  | run t => exact loop_view h

theorem counted_step (hs : s.view.Counted)
    (h : step nBatchSize eval a s = some s') : s'.view.Counted := by
  obtain ⟨w, hclean, hwork⟩ := step_view h
  have hw : w.Counted := by
    cases hclean with
    | refl => exact hs
    | single hclean => exact hs.cleansUp hclean
  cases hwork with
  | refl => exact hw
  | single hwork => exact hw.step hwork

theorem sound_step (hcounted : s.view.Counted) (hs : s.view.Sound eval)
    (hsmall : s.added.length < 2 ^ 32) (h : step nBatchSize eval a s = some s') :
    s'.view.Sound eval := by
  obtain ⟨w, hclean, hwork⟩ := step_view h
  have hw : w.Counted ∧ w.Sound eval ∧ w.added.length < 2 ^ 32 := by
    cases hclean with
    | refl => exact ⟨hcounted, hs, hsmall⟩
    | single hclean =>
      refine ⟨hcounted.cleansUp hclean, hs.cleansUp hclean, ?_⟩
      cases hclean
      exact hsmall
  cases hwork with
  | refl => exact hw.2.1
  | single hwork => exact hw.2.1.step hw.1 hw.2.2 hwork

end Simulation

end CCheckQueue

end VBitcoin
