import VBitcoin.CheckQueue

/-!
**`Wait` returns, and with the right result** — the master in `Wait` is a worker itself and
must not miss the end: it waits only while something is pending (`MasterWaits`), and the
worker that reports the last batch wakes it.  Under weak fairness `weight` falls until nobody
has anything to do.
-/

namespace VBitcoin

open List LoopPoint

namespace CCheckQueue

variable {T : Type} {n : Nat} {nBatchSize : Nat} {eval : T → Bool} {s s' : CCheckQueue T n}
  {t : ThreadId n}

/-! ### The master waits only for work in progress -/

def MasterWaits (s : CCheckQueue T n) : Prop :=
  s.thread none = .waiting → s.queue = [] ∧ s.nTodo ≠ 0

variable {u : ThreadId n} {p : LoopPoint T} {nNow : Nat} {fOk : Bool} {a : QueueAction T n}

theorem thread_setThread_of_ne (h : u ≠ t) : (s.setThread t p).thread u = s.thread u :=
  Function.update_of_ne h _ _

@[simp] theorem thread_setThread_self : (s.setThread t p).thread t = p :=
  Function.update_self _ _ _

theorem wakeUp_ne_waiting (p : LoopPoint T) : p.wakeUp ≠ .waiting := by
  cases p <;> nofun

theorem MasterWaits.setThread (h : s.MasterWaits)
    (hp : t = none → p ≠ .waiting) : (s.setThread t p).MasterWaits := by
  intro hwaits
  cases t with
  | none =>
    rw [thread_setThread_self] at hwaits
    exact absurd hwaits (hp rfl)
  | some i =>
    rw [thread_setThread_of_ne (Option.some_ne_none i).symm] at hwaits
    exact h hwaits

variable {vChecks rest : List T} {notified : Option (Fin n)} {c : T}

theorem add_master (h : s.add vChecks notified = some s') : s'.thread none = s.thread none := by
  match vChecks with
  | [] =>
    obtain rfl := Option.some.inj h
    rfl
  | [c] =>
    cases notified with
    | none =>
      obtain ⟨-, ⟨⟩⟩ := Option.ite_none_right_eq_some.mp h
      rfl
    | some i =>
      obtain ⟨-, ⟨⟩⟩ := Option.ite_none_right_eq_some.mp h
      exact thread_setThread_of_ne (Option.some_ne_none i).symm
  | c :: d :: rest =>
    obtain rfl := Option.some.inj h
    rfl

theorem masterWaits_proceed (h : s.MasterWaits) : (s.proceed nBatchSize t).MasterWaits := by
  rw [proceed]
  by_cases hqueue : s.queue = []
  · rw [if_pos (List.isEmpty_iff.mpr hqueue)]
    split
    · intro hwaits
      rw [thread_finish, Function.update_self] at hwaits
      cases hwaits
    · rename_i hmore
      cases t with
      | none => exact fun _ => ⟨hqueue, fun htodo => hmore ⟨rfl, htodo⟩⟩
      | some i => exact h.setThread (p := .waiting) fun hi => absurd hi (Option.some_ne_none i)
  · rw [if_neg (mt List.isEmpty_iff.mp hqueue)]
    intro hwaits
    cases t with
    | none =>
      rw [thread_takeBatch, Function.update_self] at hwaits
      cases hwaits
    | some i =>
      rw [thread_takeBatch, Function.update_of_ne (Option.some_ne_none i).symm] at hwaits
      exact absurd (h hwaits).1 hqueue

theorem masterWaits_cleanUp (h : s.MasterWaits) : (s.cleanUp t nNow fOk).MasterWaits := by
  rw [cleanUp]
  split
  · intro hwaits
    rw [notifyMaster, thread_setThread_self] at hwaits
    exact absurd hwaits (wakeUp_ne_waiting _)
  · rename_i hmore
    intro hwaits
    cases t with
    | none =>
      rw [thread_report, Function.update_self] at hwaits
      cases hwaits
    | some i =>
      rw [thread_report, Function.update_of_ne (Option.some_ne_none i).symm] at hwaits
      exact ⟨(h hwaits).1, fun htodo => hmore ⟨htodo, Option.some_ne_none i⟩⟩

theorem masterWaits_check (h : s.MasterWaits) : (s.check eval t c rest nNow fOk).MasterWaits := by
  cases fOk with
  | true => exact h.setThread (p := .working ⟨rest, nNow, eval c⟩) fun _ => nofun
  | false => exact h.setThread (p := .working ⟨rest, nNow, false⟩) fun _ => nofun

theorem masterWaits_step (hs : s.MasterWaits)
    (h : step nBatchSize eval a s = some s') : s'.MasterWaits := by
  cases a with
  | construct | destroy =>
    obtain ⟨-, ⟨⟩⟩ := Option.ite_none_right_eq_some.mp h
    exact hs
  | add vChecks notified =>
    obtain ⟨⟨-, houtside⟩, hadd⟩ := Option.ite_none_right_eq_some.mp h
    intro hwaits
    rw [add_master hadd, isOutside_eq houtside] at hwaits
    cases hwaits
  | wait | start | wake =>
    obtain ⟨-, ⟨⟩⟩ := Option.ite_none_right_eq_some.mp h
    exact hs.setThread fun _ => nofun
  | run t =>
    rcases loop_cases h with ⟨-, rfl⟩ | ⟨-, rfl⟩ | ⟨_, _, -, rfl⟩ | ⟨_, _, _, _, -, rfl⟩
    · exact masterWaits_proceed hs
    · exact masterWaits_proceed hs
    · exact masterWaits_proceed (masterWaits_cleanUp hs)
    · exact masterWaits_check hs

/-! ### What is left to do -/

/-- The turns a thread can still take before it waits. -/
def pointWeight : LoopPoint T → Nat
  | .outside => 2
  | .entering => 1
  | .waiting => 0
  | .woken => 0
  | .working b => b.vChecks.length + 1

@[simp] theorem pointWeight_working (b : Batch T) :
    pointWeight (.working b) = b.vChecks.length + 1 := rfl

/-- A queued check costs more than one in a batch: taking is progress. -/
def weight (s : CCheckQueue T n) : Nat := 3 * s.queue.length + ∑ t, pointWeight (s.thread t)

theorem weight_wakeUp (p : LoopPoint T) : pointWeight p.wakeUp = pointWeight p := by
  cases p <;> rfl

theorem pointWeight_update (s : CCheckQueue T n) (t : ThreadId n) (p : LoopPoint T) :
    ∑ u, pointWeight (Function.update s.thread t p u) + pointWeight (s.thread t) =
      ∑ u, pointWeight (s.thread u) + pointWeight p :=
  WorkState.sum_update pointWeight s.thread t p

theorem weight_setThread (s : CCheckQueue T n) (t : ThreadId n) (p : LoopPoint T) :
    (s.setThread t p).weight + pointWeight (s.thread t) = s.weight + pointWeight p := by
  have hsum := pointWeight_update s t p
  simp only [weight, setThread]
  omega

theorem weight_notifyMaster (s : CCheckQueue T n) : s.notifyMaster.weight = s.weight := by
  have hset := weight_setThread s none (s.thread none).wakeUp
  rw [weight_wakeUp] at hset
  exact Nat.add_right_cancel hset

theorem weight_proceed (s : CCheckQueue T n) (nBatchSize : Nat) (t : ThreadId n) :
    (s.proceed nBatchSize t).thread none = .outside ∨
      ((s.proceed nBatchSize t).thread t = .waiting ∧
        (s.proceed nBatchSize t).weight + pointWeight (s.thread t) = s.weight) ∨
      (s.proceed nBatchSize t).weight + pointWeight (s.thread t) < s.weight := by
  rw [proceed]
  by_cases hqueue : s.queue = []
  · rw [if_pos (List.isEmpty_iff.mpr hqueue)]
    split
    · left
      rw [thread_finish, Function.update_self]
    · right
      left
      refine ⟨by rw [thread_idle, Function.update_self], ?_⟩
      exact weight_setThread s t .waiting
  · rw [if_neg (mt List.isEmpty_iff.mp hqueue)]
    right
    right
    have hpos := batchSize_pos nBatchSize s
    have hle : s.batchSize nBatchSize ≤ s.queue.length := batchSize_le hqueue
    have hsum := pointWeight_update s t
      (.working ⟨s.queue.take (s.batchSize nBatchSize), s.batchSize nBatchSize, s.fAllOk⟩)
    have hbatch : pointWeight (.working ⟨s.queue.take (s.batchSize nBatchSize),
        s.batchSize nBatchSize, s.fAllOk⟩) = s.batchSize nBatchSize + 1 := by
      rw [pointWeight_working, length_take_of_le hle]
    have hqueue' : (s.takeBatch nBatchSize t).queue.length =
        s.queue.length - s.batchSize nBatchSize := length_drop
    rw [hbatch] at hsum
    simp only [weight, thread_takeBatch, hqueue']
    omega

theorem weight_cleanUp (ht : s.thread t = .working ⟨[], nNow, fOk⟩) :
    (s.cleanUp t nNow fOk).weight = s.weight ∧
      pointWeight ((s.cleanUp t nNow fOk).thread t) = 1 := by
  have hreport : (s.report t nNow fOk).weight = s.weight := by
    have hsum := pointWeight_update s t .entering
    simp only [ht, pointWeight, length_nil] at hsum
    exact congrArg (3 * s.queue.length + ·) (Nat.add_right_cancel hsum)
  rw [cleanUp]
  split
  · rename_i hdone
    rw [weight_notifyMaster, hreport, notifyMaster, thread_setThread_of_ne hdone.2, thread_report,
      Function.update_self]
    exact ⟨rfl, rfl⟩
  · rw [hreport, thread_report, Function.update_self]
    exact ⟨rfl, rfl⟩

theorem weight_check (ht : s.thread t = .working ⟨c :: rest, nNow, fOk⟩) :
    (s.check eval t c rest nNow fOk).weight + 1 = s.weight := by
  have hsum := pointWeight_update s t (.working ⟨rest, nNow, fOk && eval c⟩)
  have hqueue : (s.check eval t c rest nNow fOk).queue = s.queue := by cases fOk <;> rfl
  simp only [ht, pointWeight_working, length_cons] at hsum
  simp only [weight, thread_check, hqueue]
  omega

def isBusy : LoopPoint T → Bool
  | .entering => true
  | .working _ => true
  | _ => false

def isReady : LoopPoint T → Bool
  | .entering => true
  | .woken => true
  | .working _ => true
  | _ => false

theorem weight_run_of_busy (hbusy : isBusy (s.thread t) = true)
    (h : s.loop nBatchSize eval t = some s') :
    s'.thread none = .outside ∨ s'.weight < s.weight := by
  rcases loop_cases h with
    ⟨ht, rfl⟩ | ⟨ht, -⟩ | ⟨nNow, fOk, ht, rfl⟩ | ⟨c, rest, nNow, fOk, ht, rfl⟩
  · have hone : pointWeight (s.enter.thread t) = 1 := by rw [enter, ht]; rfl
    have hsame : s.enter.weight = s.weight := rfl
    rcases weight_proceed s.enter nBatchSize t with hleft | ⟨-, heq⟩ | hlt
    · exact .inl hleft
    · exact .inr (by omega)
    · exact .inr (by omega)
  · rw [ht] at hbusy
    cases hbusy
  · obtain ⟨hsame, hone⟩ := weight_cleanUp ht
    rcases weight_proceed (s.cleanUp t nNow fOk) nBatchSize t with hleft | ⟨-, heq⟩ | hlt
    · exact .inl hleft
    · exact .inr (by omega)
    · exact .inr (by omega)
  · have hcheck : (s.check eval t c rest nNow fOk).weight + 1 = s.weight := weight_check ht
    exact .inr (by omega)

theorem weight_run_of_woken (ht : s.thread t = .woken) (h : s.loop nBatchSize eval t = some s') :
    s'.thread none = .outside ∨ (s'.thread t = .waiting ∧ s'.weight = s.weight) ∨
      s'.weight < s.weight := by
  rw [loop, ht] at h
  obtain rfl := Option.some.inj h
  have hzero : pointWeight (s.leaveIdle.thread t) = 0 := by rw [leaveIdle, ht]; rfl
  have hproceed := weight_proceed s.leaveIdle nBatchSize t
  rw [hzero, Nat.add_zero] at hproceed
  exact hproceed

theorem weight_step_le (hs : s.thread none ≠ .outside)
    (hs' : s'.thread none ≠ .outside) (h : step nBatchSize eval a s = some s') :
    s'.weight ≤ s.weight := by
  cases a with
  | construct =>
    obtain ⟨-, ⟨⟩⟩ := Option.ite_none_right_eq_some.mp h
    exact Nat.le_refl _
  | add | wait | destroy =>
    obtain ⟨⟨-, houtside⟩, -⟩ := Option.ite_none_right_eq_some.mp h
    exact absurd (isOutside_eq houtside) hs
  | start i =>
    obtain ⟨houtside, ⟨⟩⟩ := Option.ite_none_right_eq_some.mp h
    have hset := weight_setThread s (some i) .entering
    rw [isOutside_eq houtside] at hset
    simp only [pointWeight] at hset
    omega
  | wake t =>
    obtain ⟨hwaiting, ⟨⟩⟩ := Option.ite_none_right_eq_some.mp h
    have hset := weight_setThread s t .woken
    rw [isWaiting_eq hwaiting] at hset
    exact (Nat.add_right_cancel hset).le
  | run t =>
    by_cases hbusy : isBusy (s.thread t) = true
    · rcases weight_run_of_busy hbusy h with hleft | hlt
      · exact absurd hleft hs'
      · exact hlt.le
    · have hwoken : s.thread t = .woken := by
        rcases loop_cases h with ⟨ht, -⟩ | ⟨ht, -⟩ | ⟨_, _, ht, -⟩ | ⟨_, _, _, _, ht, -⟩
        · exact absurd (by rw [ht]; rfl) hbusy
        · exact ht
        · exact absurd (by rw [ht]; rfl) hbusy
        · exact absurd (by rw [ht]; rfl) hbusy
      rcases weight_run_of_woken hwoken h with hleft | ⟨-, heq⟩ | hlt
      · exact absurd hleft hs'
      · exact heq.le
      · exact hlt.le

/-! ### A thread that is not blocked stays so until it runs -/

theorem thread_proceed_of_ne (hu : u ≠ t) : (s.proceed nBatchSize t).thread u = s.thread u := by
  rw [proceed]
  split
  · split
    · rename_i hdone
      rw [thread_finish, Function.update_of_ne (hdone.1 ▸ hu)]
    · rw [thread_idle, Function.update_of_ne hu]
  · rw [thread_takeBatch, Function.update_of_ne hu]

theorem wakeUp_of_ready (hp : isReady p = true) : p.wakeUp = p := by
  cases p <;> first | rfl | cases hp

theorem thread_notifyMaster_of_ready (hu : isReady (s.thread u) = true) :
    s.notifyMaster.thread u = s.thread u := by
  cases u with
  | none => rw [notifyMaster, thread_setThread_self, wakeUp_of_ready hu]
  | some i => exact thread_setThread_of_ne (Option.some_ne_none i)

theorem thread_step_of_ready (hready : isReady (s.thread t) = true)
    (ha : a ≠ .run t) (hs : s.thread none ≠ .outside)
    (h : step nBatchSize eval a s = some s') : s'.thread t = s.thread t := by
  cases a with
  | construct =>
    obtain ⟨-, ⟨⟩⟩ := Option.ite_none_right_eq_some.mp h
    rfl
  | add | wait | destroy =>
    obtain ⟨⟨-, houtside⟩, -⟩ := Option.ite_none_right_eq_some.mp h
    exact absurd (isOutside_eq houtside) hs
  | start i =>
    obtain ⟨houtside, ⟨⟩⟩ := Option.ite_none_right_eq_some.mp h
    apply thread_setThread_of_ne
    rintro rfl
    rw [isOutside_eq houtside] at hready
    cases hready
  | wake u =>
    obtain ⟨hwaiting, ⟨⟩⟩ := Option.ite_none_right_eq_some.mp h
    apply thread_setThread_of_ne
    rintro rfl
    rw [isWaiting_eq hwaiting] at hready
    cases hready
  | run u =>
    have htu : t ≠ u := fun htu => ha (htu ▸ rfl)
    rcases loop_cases h with ⟨-, rfl⟩ | ⟨-, rfl⟩ | ⟨nNow, fOk, -, rfl⟩ | ⟨_, _, _, _, -, rfl⟩
    · exact thread_proceed_of_ne htu
    · exact thread_proceed_of_ne htu
    · have hreport : (s.report u nNow fOk).thread t = s.thread t := by
        rw [thread_report, Function.update_of_ne htu]
      rw [thread_proceed_of_ne htu, cleanUp]
      split
      · rw [thread_notifyMaster_of_ready (by rw [hreport]; exact hready), hreport]
      · exact hreport
    · rw [thread_check, Function.update_of_ne htu]

/-! ### Runs -/

theorem counted_new : (new : CCheckQueue T n).view.Counted := by
  refine ⟨?_, fun t b hb => ?_⟩
  · have hpending : (new : CCheckQueue T n).view.pending = 0 := by
      simp [WorkState.pending, view, new, LoopPoint.batch, WorkState.inBatch]
    rw [hpending]
    rfl
  · cases hb

theorem sound_new : (new : CCheckQueue T n).view.Sound eval where
  parts := by
    have hleft : (new : CCheckQueue T n).view.left = 0 := WorkState.left_eq_zero fun _ => rfl
    rw [hleft]
    rfl
  pending_le := by simp [WorkState.pending, view, new, LoopPoint.batch, WorkState.inBatch]
  failed_iff := by
    rw [WorkState.failed_iff_of_idle fun _ => rfl]
    simp [view, new]
  skipped_failed := fun h => absurd rfl h
  fresh := fun _ => rfl
  sessions_exact := fun _ h => absurd h not_mem_nil

section Runs

variable (r : EndlessRun (step nBatchSize eval) (new : CCheckQueue T n))

theorem run_counted (i : Nat) : (r.state i).view.Counted :=
  r.invariant (P := fun s => s.view.Counted) (Q := fun _ => True) (fun _ => trivial) counted_new
    (fun _ _ _ _ => counted_step) i

theorem run_masterWaits (i : Nat) : (r.state i).MasterWaits :=
  r.invariant (P := MasterWaits) (Q := fun _ => True) (fun _ => trivial) nofun
    (fun _ _ _ _ => masterWaits_step) i

theorem run_sound (hsmall : ∀ i, (r.state i).added.length < 2 ^ 32) (i : Nat) :
    (r.state i).view.Sound eval := by
  have hboth : (r.state i).view.Counted ∧ (r.state i).view.Sound eval :=
    r.invariant (P := fun s => s.view.Counted ∧ s.view.Sound eval)
      (Q := fun s => s.added.length < 2 ^ 32) hsmall ⟨counted_new, sound_new⟩
      (fun _ _ _ hs h hstep => ⟨counted_step h.1 hstep, sound_step h.1 h.2 hs hstep⟩) i
  exact hboth.2

def FairlyScheduled : Prop :=
  r.Fair (fun t => QueueAction.run t) fun t s => isReady (s.thread t) = true

theorem isReady_of_isBusy {p : LoopPoint T} (h : isBusy p = true) : isReady p = true := by
  cases p <;> first | rfl | cases h

variable {r} {i : Nat}

/-- A thread that is not blocked comes to run, from the point where it stands. -/
theorem FairlyScheduled.runs (hfair : FairlyScheduled r)
    (hin : ∀ j, i ≤ j → (r.state j).thread none ≠ .outside)
    (hready : isReady ((r.state i).thread t) = true) :
    ∃ j, i ≤ j ∧ (r.state j).loop nBatchSize eval t = some (r.state (j + 1)) ∧
      (r.state j).thread t = (r.state i).thread t := by
  obtain ⟨j, hj, hact, hpoint⟩ := hfair.acts_after (t := t) (i := i)
    (P := fun s => s.thread t = (r.state i).thread t) (fun s hs => by rw [hs]; exact hready) rfl (by
      intro j hj hpoint hother
      rcases r.next_cases j with hsame | ⟨a, hact, hstep⟩
      · rw [hsame]
        exact hpoint
      · have ha : a ≠ .run t := fun ha => hother (ha ▸ hact)
        rw [thread_step_of_ready (by rw [hpoint]; exact hready) ha (hin j hj) hstep]
        exact hpoint)
  exact ⟨j, hj, r.next_of_action hact, hpoint⟩

theorem not_waiting_of_idle (hcounted : s.view.Counted) (hs : s.MasterWaits)
    (hidle : ∀ t, isBusy (s.thread t) = false) : s.thread none ≠ .waiting := by
  intro hwaiting
  obtain ⟨hqueue, htodo⟩ := hs hwaiting
  have hbatches : ∀ t, s.view.batches t = none := by
    intro t
    have ht := hidle t
    simp only [view]
    cases hp : s.thread t with
    | working b =>
      rw [hp] at ht
      cases ht
    | outside | entering | waiting | woken => rfl
  have hpending : s.view.pending = 0 := by
    simp only [WorkState.pending, hbatches, WorkState.inBatch, Option.elim_none,
      Finset.sum_const_zero, Nat.add_zero]
    exact length_eq_zero_iff.mpr hqueue
  have hzero := hcounted.nTodo_eq
  rw [hpending] at hzero
  exact htodo hzero

/-- **`Wait` returns**: the master is outside `Loop` again at some later time. -/
theorem wait_returns (hfair : FairlyScheduled r) (i : Nat) :
    ∃ j, i ≤ j ∧ (r.state j).thread none = .outside := by
  by_contra hnever
  have hin : ∀ j, i ≤ j → (r.state j).thread none ≠ .outside :=
    fun j hj houtside => hnever ⟨j, hj, houtside⟩
  have hle : ∀ j, i ≤ j → (r.state (j + 1)).weight ≤ (r.state j).weight := by
    intro j hj
    rcases r.next_cases j with hsame | ⟨a, -, hstep⟩
    · rw [hsame]
    · exact weight_step_le (hin j hj) (hin (j + 1) (Nat.le_succ_of_le hj)) hstep
  obtain ⟨k, hik, hstable⟩ :=
    EndlessRun.exists_stable (μ := fun j => (r.state j).weight) hle
  have hconstant : ∀ j, k ≤ j → (r.state (j + 1)).weight = (r.state j).weight :=
    fun j hj => (hstable (j + 1) (Nat.le_succ_of_le hj)).trans (hstable j hj).symm
  -- nobody is busy any more
  have hidle : ∀ j, k ≤ j → ∀ t, isBusy ((r.state j).thread t) = false := by
    intro j hj t
    by_contra hbusy
    rw [Bool.not_eq_false] at hbusy
    obtain ⟨m, hm, hloop, hpoint⟩ := hfair.runs
      (fun m hm => hin m ((hik.trans hj).trans hm)) (isReady_of_isBusy hbusy)
    have hkm := hj.trans hm
    rcases weight_run_of_busy (by rw [hpoint]; exact hbusy) hloop with houtside | hlt
    · exact hin (m + 1) (Nat.le_succ_of_le (hik.trans hkm)) houtside
    · exact hlt.ne (hconstant m hkm)
  have hwaits : ∀ j, k ≤ j → (r.state j).thread none ≠ .waiting :=
    fun j hj => not_waiting_of_idle (run_counted r j) (run_masterWaits r j) (hidle j hj)
  -- it has been woken, runs, and finds that it waits again
  have hwoken : (r.state k).thread none = .woken := by
    cases hp : (r.state k).thread none with
    | woken => rfl
    | outside => exact absurd hp (hin k hik)
    | waiting => exact absurd hp (hwaits k (Nat.le_refl k))
    | entering | working =>
      have hbusy := hidle k (Nat.le_refl k) none
      rw [hp] at hbusy
      cases hbusy
  obtain ⟨m, hm, hloop, hpoint⟩ := hfair.runs (t := none)
    (fun m hm => hin m (hik.trans hm)) (by rw [hwoken]; rfl)
  rcases weight_run_of_woken (hpoint.trans hwoken) hloop with houtside | ⟨hwaiting, -⟩ | hlt
  · exact hin (m + 1) (Nat.le_succ_of_le (hik.trans hm)) houtside
  · exact hwaits (m + 1) (Nat.le_succ_of_le hm) hwaiting
  · exact hlt.ne (hconstant m hm)

/-- **Parallel checking is exact** for fewer than `2 ^ 32` checks for one `Wait`: its result is
    right, no check is executed twice, a new control finds the queue unused, and with fair
    scheduling `Wait` returns. -/
theorem checkQueue_exact (r : EndlessRun (step nBatchSize eval) (new : CCheckQueue T n))
    (hsmall : ∀ i, (r.state i).added.length < 2 ^ 32) :
    (∀ i, ∀ session ∈ (r.state i).sessions, session.Exact eval) ∧
      (∀ i, List.Subperm (r.state i).executed (r.state i).added) ∧
      (∀ i, (r.state i).fDone = none → (r.state i).queue = [] ∧ (r.state i).nTodo = 0 ∧
        (r.state i).fAllOk = true ∧ ∀ t, ((r.state i).thread t).batch = none) ∧
      (FairlyScheduled r → ∀ i, ∃ j, i ≤ j ∧ (r.state j).thread none = .outside) := by
  refine ⟨fun i => (run_sound r hsmall i).sessions_exact, fun i => ?_, fun i hdone => ?_,
    wait_returns⟩
  · have hparts := (run_sound r hsmall i).parts
    rw [← Multiset.coe_le]
    exact hparts ▸ (Multiset.le_add_left _ _).trans (Multiset.le_add_right _ _)
  · have hsound := run_sound r hsmall i
    have hcounted := run_counted r i
    have hadded : (r.state i).view.added = [] := hsound.fresh (by simp [view, hdone])
    have hpending : (r.state i).view.pending = 0 := by
      have hle := hsound.pending_le
      rw [hadded] at hle
      exact Nat.le_zero.mp hle
    have hbatches := hcounted.batches_eq_none hpending
    refine ⟨length_eq_zero_iff.mp (Nat.add_eq_zero_iff.mp hpending).1, ?_, ?_, hbatches⟩
    · have htodo := hcounted.nTodo_eq
      rw [hpending] at htodo
      exact htodo
    · have hexecuted : (r.state i).view.executed = [] := by
        have hparts := hsound.parts
        rw [hadded] at hparts
        have hlength := congrArg Multiset.card hparts
        simp only [Multiset.card_add, Multiset.coe_card, length_nil] at hlength
        exact length_eq_zero_iff.mp (by omega)
      by_contra hbad
      obtain ⟨c, hc, -⟩ := hsound.failed_iff.mp (.inl (Bool.eq_false_iff.mpr hbad))
      rw [hexecuted] at hc
      cases hc

end Runs

def twoChecks : List (QueueAction Bool 1) :=
  [.construct, .add [true, false] none, .start 0, .run (some 0), .wait, .run none, .run none,
    .run (some 0), .run (some 0), .run none, .destroy]

theorem twoChecks_runs : ∃ s, GuardedRuns.run (step 1 id) twoChecks new = some s ∧
    s.added = [] ∧ s.sessions = [⟨[true, false], [false, true], false, 0, []⟩] :=
  ⟨_, rfl, rfl, rfl⟩

theorem twoChecks_exact :
    ∃ r : EndlessRun (step 1 id) (new : CCheckQueue Bool 1),
      (r.state 11).sessions.length = 1 ∧ (∀ i, (r.state i).added.length < 2 ^ 32) ∧
      ∀ i, ∀ session ∈ (r.state i).sessions, session.Exact id := by
  obtain ⟨s, hrun, hadded, hsessions⟩ := twoChecks_runs
  have hsmall : ∀ i, ((EndlessRun.ofRun twoChecks hrun).state i).added.length < 2 ^ 32 := by
    intro i
    rcases Nat.lt_or_ge i 11 with hi | hi
    · have hall : ∀ i : Fin 11, ((GuardedRuns.run (step 1 id) (twoChecks.take i) new).getD
          (new : CCheckQueue Bool 1)).added.length < 2 ^ 32 := by decide
      exact hall ⟨i, hi⟩
    · rw [EndlessRun.ofRun_state_of_le hrun hi, hadded]
      exact Nat.two_pow_pos 32
  refine ⟨_, ?_, hsmall, (checkQueue_exact _ hsmall).1⟩
  rw [EndlessRun.ofRun_state_of_le hrun (by decide), hsessions]
  rfl

/-! ### When `nTodo` wraps around

Three workers take batches of `2 ^ 32` checks together and get no further.  Then `nTodo` counts
only what is queued, and the master, who works the rest off alone, leaves with the result of
that rest. -/

open GuardedRuns

/-- `nTodo` counts the queue and the master's own batch. -/
structure Draining (eval : T → Bool) (s : CCheckQueue T n) : Prop where
  fAllOk : s.fAllOk = true
  queue_true : ∀ c ∈ s.queue, eval c = true
  busy : isBusy (s.thread none) = true
  batch_true : ∀ b, (s.thread none).batch = some b →
    b.fOk = true ∧ ∀ c ∈ b.vChecks, eval c = true
  nTodo : s.nTodo = UInt32.ofNat
    (s.queue.length + WorkState.inBatch (s.thread none).batch)

/-- The result that is wrong when checks in other batches fail. -/
def ReturnsTrue (added : List T) (s : CCheckQueue T n) : Prop :=
  ∃ session ∈ s.sessions, session.added = added ∧ session.result = true

theorem proceed_drains (hok : s.fAllOk = true) (hqueue : ∀ c ∈ s.queue, eval c = true)
    (htodo : s.nTodo = UInt32.ofNat s.queue.length) :
    ReturnsTrue s.added (s.proceed nBatchSize none) ∨
      (Draining eval (s.proceed nBatchSize none) ∧
        (s.proceed nBatchSize none).added = s.added) := by
  by_cases hempty : s.queue = []
  · left
    rw [hempty] at htodo
    rw [proceed, if_pos (List.isEmpty_iff.mpr hempty), if_pos ⟨rfl, htodo⟩]
    exact ⟨_, mem_cons_self, rfl, hok⟩
  · right
    rw [proceed, if_neg (mt List.isEmpty_iff.mp hempty)]
    have hle : s.batchSize nBatchSize ≤ s.queue.length := batchSize_le hempty
    refine ⟨⟨hok, fun c hc => hqueue c (mem_of_mem_drop hc), ?_, ?_, ?_⟩, rfl⟩
    · rw [thread_takeBatch, Function.update_self]
      rfl
    · intro b hb
      rw [thread_takeBatch, Function.update_self] at hb
      obtain rfl := Option.some.inj hb
      exact ⟨hok, fun c hc => hqueue c (mem_of_mem_take hc)⟩
    · rw [thread_takeBatch, Function.update_self]
      show s.nTodo = UInt32.ofNat ((s.queue.drop _).length + s.batchSize nBatchSize)
      rw [length_drop, Nat.sub_add_cancel hle]
      exact htodo

theorem Draining.run (h : Draining eval s) : ∃ s', s.loop nBatchSize eval none = some s' ∧
    (ReturnsTrue s.added s' ∨ (Draining eval s' ∧ s'.added = s.added)) := by
  have htodo := h.nTodo
  rw [loop]
  split
  · rename_i hp
    exact absurd h.busy (by rw [hp]; exact Bool.false_ne_true)
  · rename_i hp
    exact absurd h.busy (by rw [hp]; exact Bool.false_ne_true)
  · rename_i hp
    rw [hp] at htodo
    exact ⟨_, rfl, proceed_drains (s := s.enter) h.fAllOk h.queue_true htodo⟩
  · rename_i hp
    exact absurd h.busy (by rw [hp]; exact Bool.false_ne_true)
  · rename_i nNow fOk hp
    obtain ⟨hok, -⟩ := h.batch_true _ (by rw [hp]; rfl)
    have hclean : s.cleanUp none nNow fOk = s.report none nNow fOk :=
      if_neg fun hne => hne.2 rfl
    refine ⟨_, rfl, ?_⟩
    rw [hclean]
    refine proceed_drains (s := s.report none nNow fOk) ?_ h.queue_true ?_
    · show (s.fAllOk && fOk) = true
      rw [h.fAllOk]
      exact hok
    · rw [hp, UInt32.ofNat_add] at htodo
      show s.nTodo - UInt32.ofNat nNow = _
      rw [htodo]
      exact UInt32.add_sub_cancel _ _
  · rename_i c rest nNow fOk hp
    obtain ⟨hok, hall⟩ := h.batch_true _ (by rw [hp]; rfl)
    obtain rfl : fOk = true := hok
    refine ⟨_, rfl, .inr ⟨⟨h.fAllOk, h.queue_true, ?_, ?_, ?_⟩, rfl⟩⟩
    · rw [thread_check, Function.update_self]
      rfl
    · intro b hb
      rw [thread_check, Function.update_self] at hb
      obtain rfl := Option.some.inj hb
      exact ⟨hall c mem_cons_self, (forall_mem_cons.mp hall).2⟩
    · rw [thread_check, Function.update_self]
      rw [hp] at htodo
      exact htodo

theorem Draining.returns (nBatchSize : Nat) (h : Draining eval s) :
    ∃ s', Reaches (step nBatchSize eval) s s' ∧ ReturnsTrue s.added s' := by
  induction hw : s.weight using Nat.strong_induction_on generalizing s with
  | _ w ih =>
    obtain ⟨s₁, hloop, hturn⟩ : ∃ s', s.loop nBatchSize eval none = some s' ∧
        (ReturnsTrue s.added s' ∨ (Draining eval s' ∧ s'.added = s.added)) := h.run
    have hstep : step nBatchSize eval (.run none) s = some s₁ := hloop
    rcases hturn with hdone | ⟨hdrains, hadded⟩
    · exact ⟨s₁, .single hstep, hdone⟩
    · rcases weight_run_of_busy h.busy hloop with houtside | hlt
      · exact absurd hdrains.busy (by rw [houtside]; nofun)
      · obtain ⟨s₂, hreaches, hreturns⟩ := ih s₁.weight (hw ▸ hlt) hdrains rfl
        exact ⟨s₂, Reaches.trans (.single hstep) hreaches, hadded ▸ hreturns⟩

/-- While checks are added, `m` workers hold a batch, the rest have not begun. -/
structure Stage (s : CCheckQueue Bool n) (length m todo : Nat) : Prop where
  queue_length : s.queue.length = length
  nTotal : s.nTotal = m
  nIdle : s.nIdle = 0
  fAllOk : s.fAllOk = true
  nTodo : s.nTodo = UInt32.ofNat todo
  fDone : s.fDone = some false
  outside : s.thread none = .outside
  unstarted : ∀ i : Fin n, m ≤ i.val → s.thread (some i) = .outside

theorem add_of_two_le (h : 2 ≤ vChecks.length) :
    s.add vChecks notified = some (s.push vChecks).notifyAll := by
  match vChecks with
  | [] => simp at h
  | [c] => simp at h
  | c :: d :: rest => rfl

section Stages

variable {s : CCheckQueue Bool n} {length m todo : Nat}

theorem Stage.add (nBatchSize : Nat) {vChecks : List Bool} (h : Stage s length m todo)
    (htwo : 2 ≤ vChecks.length) :
    Reaches (step nBatchSize id) s (s.push vChecks).notifyAll ∧
      Stage (s.push vChecks).notifyAll (length + vChecks.length) m (todo + vChecks.length) := by
  constructor
  · have hstep : step nBatchSize id (.add vChecks none) s = some (s.push vChecks).notifyAll := by
      rw [step, if_pos ⟨h.fDone, by rw [h.outside]; rfl⟩, add_of_two_le htwo]
    exact .single hstep
  · refine ⟨?_, h.nTotal, h.nIdle, h.fAllOk, ?_, h.fDone, h.outside, ?_⟩
    · show (vChecks.reverse ++ s.queue).length = _
      rw [length_append, length_reverse, h.queue_length, Nat.add_comm]
    · show s.nTodo + UInt32.ofNat vChecks.length = _
      rw [h.nTodo, UInt32.ofNat_add]
    · intro i hi
      show (s.thread (some i)).wakeUp = .outside
      rw [h.unstarted i hi]
      rfl

theorem Stage.grab {k : Nat} (h : Stage s length m todo) (hm : m < n) (hlength : 0 < length)
    (hk : max 1 (min nBatchSize (length % 2 ^ 32 / (m + 1 + 0 + 1))) = k) :
    ∃ s', Reaches (step nBatchSize id) s s' ∧ Stage s' (length - k) (m + 1) todo ∧
      s'.queue = s.queue.drop k ∧ s'.added = s.added := by
  let i : Fin n := ⟨m, hm⟩
  let s₁ := (s.setThread (some i) .entering).enter
  have hne : s₁.queue ≠ [] := length_pos_iff.mp (h.queue_length ▸ hlength)
  have hsize : s₁.batchSize nBatchSize = k := by
    rw [← hk, batchSize]
    show max 1 (min nBatchSize (s.queue.length % 2 ^ 32 / (s.nTotal + 1 + s.nIdle + 1))) = _
    rw [h.queue_length, h.nTotal, h.nIdle]
  have hstart : step nBatchSize id (.start i) s = some (s.setThread (some i) .entering) := by
    rw [step, if_pos (by rw [h.unstarted i (Nat.le_refl m)]; rfl)]
  have hrun : step nBatchSize id (.run (some i)) (s.setThread (some i) .entering) =
      some (s₁.takeBatch nBatchSize (some i)) := by
    rw [step, loop, thread_setThread_self]
    show some (s₁.proceed nBatchSize (some i)) = _
    rw [proceed, if_neg (mt List.isEmpty_iff.mp hne)]
  have hthread : ∀ u, u ≠ some i →
      (s₁.takeBatch nBatchSize (some i)).thread u = s.thread u := by
    intro u hu
    rw [thread_takeBatch, Function.update_of_ne hu]
    exact thread_setThread_of_ne hu
  have hqueue : (s₁.takeBatch nBatchSize (some i)).queue = s.queue.drop k := by
    show s.queue.drop (s₁.batchSize nBatchSize) = _
    rw [hsize]
  refine ⟨s₁.takeBatch nBatchSize (some i), Reaches.trans (.single hstart) (.single hrun), ?_,
    hqueue, rfl⟩
  refine ⟨?_, congrArg (· + 1) h.nTotal, h.nIdle, h.fAllOk, h.nTodo, h.fDone, ?_, ?_⟩
  · rw [hqueue, length_drop, h.queue_length]
  · rw [hthread none (Option.some_ne_none i).symm]
    exact h.outside
  · intro j hj
    have hji : some j ≠ some i := by
      intro hji
      have hval : j.val = m := congrArg Fin.val (Option.some.inj hji)
      omega
    rw [hthread _ hji]
    exact h.unstarted j (Nat.le_of_succ_le hj)

theorem Stage.round (h : Stage s length m todo) (nBatchSize k : Nat) (vChecks : List Bool)
    {added : Nat} (hadded : vChecks.length = added) (htwo : 2 ≤ added) (hm : m < n)
    (hk : max 1 (min nBatchSize ((length + added) % 2 ^ 32 / (m + 1 + 0 + 1))) = k) :
    ∃ s', Reaches (step nBatchSize id) s s' ∧
      Stage s' (length + added - k) (m + 1) (todo + added) ∧
      s'.queue = (vChecks.reverse ++ s.queue).drop k ∧ s'.added = s.added ++ vChecks := by
  subst hadded
  obtain ⟨hreach, hstage⟩ := h.add nBatchSize htwo
  obtain ⟨s', hreach', hstage', hqueue, hadded⟩ := hstage.grab hm (by omega) hk
  exact ⟨s', hreach.trans hreach', hstage', hqueue, hadded⟩

/-- With a multiple of `2 ^ 32` in the batches the master sees the queue only. -/
theorem Stage.wait (h : Stage s length m todo) (hqueue : ∀ c ∈ s.queue, c = true)
    (htodo : UInt32.ofNat todo = UInt32.ofNat length) :
    ∃ s', Reaches (step nBatchSize id) s s' ∧ ReturnsTrue s.added s' := by
  have hstep : step nBatchSize id .wait s = some (s.setThread none .entering) := by
    rw [step, if_pos ⟨by rw [h.fDone]; nofun, by rw [h.outside]; rfl⟩]
  have hdrains : Draining id (s.setThread none .entering) := by
    refine ⟨h.fAllOk, hqueue, by rw [thread_setThread_self]; rfl, ?_, ?_⟩
    · intro b hb
      rw [thread_setThread_self] at hb
      cases hb
    · rw [thread_setThread_self]
      show s.nTodo = UInt32.ofNat (s.queue.length + 0)
      rw [h.nTodo, htodo, h.queue_length, Nat.add_zero]
  obtain ⟨s', hreaches, hreturns⟩ := hdrains.returns nBatchSize
  exact ⟨s', Reaches.trans (.single hstep) hreaches, hreturns⟩

end Stages

theorem stage_constructed : Stage ((new : CCheckQueue Bool n).setDone (some false)) 0 0 0 :=
  ⟨rfl, rfl, rfl, rfl, rfl, rfl, rfl, fun _ _ => rfl⟩

/-- After `2 ^ 32` more checks a failing one goes unnoticed. -/
theorem nTodo_wraps_around :
    ∃ r : EndlessRun (step (2 ^ 31) id) (new : CCheckQueue Bool 3), ∃ i,
      ∃ session ∈ (r.state i).sessions, session.result = true ∧ false ∈ session.added := by
  have hrest : ∀ (k j : Nat) {queue : List Bool}, (∀ c ∈ queue, c = true) →
      ∀ c ∈ ((List.replicate j true).reverse ++ queue).drop k, c = true := by
    intro k j queue hqueue c hc
    rcases mem_append.mp (mem_of_mem_drop hc) with hnew | hold
    · exact eq_of_mem_replicate (mem_reverse.mp hnew)
    · exact hqueue c hold
  have hreach₀ : Reaches (step (2 ^ 31) id) (new : CCheckQueue Bool 3) (new.setDone (some false)) :=
    .single (show step (2 ^ 31) id .construct new = some (new.setDone (some false)) from rfl)
  obtain ⟨s₁, hreach₁, hstage₁, hqueue₁, hadded₁⟩ := stage_constructed.round (n := 3) (2 ^ 31)
    2147483647 (List.replicate 4294967293 true ++ [false])
    (by rw [length_append, length_replicate]) (by decide) (by decide) (by decide)
  obtain ⟨s₂, hreach₂, hstage₂, hqueue₂, hadded₂⟩ := hstage₁.round (2 ^ 31) 1431655765
    (List.replicate 2147483648 true) length_replicate (by decide) (by decide) (by decide)
  obtain ⟨s₃, hreach₃, hstage₃, hqueue₃, hadded₃⟩ := hstage₂.round (2 ^ 31) 715827884
    (List.replicate 6 true) length_replicate (by decide) (by decide) (by decide)
  -- only the first check of the stack fails, and it is in the first worker's batch
  have hgood₁ : ∀ c ∈ s₁.queue, c = true := by
    rw [hqueue₁, reverse_append, reverse_singleton, singleton_append,
      cons_append, drop_succ_cons]
    exact hrest 2147483646 4294967293 nofun
  have hgood₂ : ∀ c ∈ s₂.queue, c = true := by
    rw [hqueue₂]
    exact hrest _ _ hgood₁
  have hgood₃ : ∀ c ∈ s₃.queue, c = true := by
    rw [hqueue₃]
    exact hrest _ _ hgood₂
  have hfailing : false ∈ s₃.added := by
    rw [hadded₃, hadded₂, hadded₁]
    exact mem_append_left _ (mem_append_left _ (mem_append_right _
      (mem_append_right _ mem_cons_self)))
  obtain ⟨s₄, hreach₄, session, hsession, hadded, hresult⟩ := hstage₃.wait hgood₃ (by decide)
  obtain ⟨l, hrun⟩ := (((hreach₀.trans hreach₁).trans hreach₂).trans hreach₃).trans hreach₄
  refine ⟨EndlessRun.ofRun l hrun, l.length, session, ?_, hresult, hadded ▸ hfailing⟩
  rw [EndlessRun.ofRun_state_of_le hrun (Nat.le_refl _)]
  exact hsession

end CCheckQueue

end VBitcoin
