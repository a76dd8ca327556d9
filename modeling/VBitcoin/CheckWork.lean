import Mathlib

/-!
**The accounting of a check queue** — each check of a session is queued, in some thread's
batch, executed, or skipped because something had failed already.  `nTodo` counts the pending
checks only up to wrap-around (`Counted`), so that the result is exact (`Sound.exact`) as long
as fewer than `2 ^ 32` were added.
-/

namespace VBitcoin

/-! ### Threads, batches and finished sessions -/

/-- The worker threads, and the master as `none`. -/
abbrev ThreadId (n : Nat) := Option (Fin n)

/-- What is still to look at, the size of the batch, `fOk`. -/
structure Batch (T : Type) where
  vChecks : List T
  nNow : Nat
  fOk : Bool
  deriving DecidableEq

/-- A `Wait`: the checks added and executed, its result, and what it left. -/
structure CheckSession (T : Type) where
  added : List T
  executed : List T
  result : Bool
  nTodo : UInt32
  queue : List T
  deriving DecidableEq

/-- The right result, no check twice, all when none fails, nothing left. -/
def CheckSession.Exact {T : Type} (eval : T → Bool) (session : CheckSession T) : Prop :=
  (session.result = true ↔ ∀ c ∈ session.added, eval c = true) ∧
    List.Subperm session.executed session.added ∧
    ((∀ c ∈ session.added, eval c = true) → session.executed.Perm session.added) ∧
    session.nTodo = 0 ∧ session.queue = []

/-! ### The accounting -/

/-- `added`, `executed`, `skipped` and `sessions` are kept for the statements only. -/
structure WorkState (T : Type) (n : Nat) where
  queue : List T
  fAllOk : Bool
  nTodo : UInt32
  batches : ThreadId n → Option (Batch T)
  /-- `fDone` of the `CCheckQueueControl` that holds `ControlMutex`. -/
  fDone : Option Bool
  added : List T
  executed : List T
  skipped : List T
  sessions : List (CheckSession T)

namespace WorkState

variable {T : Type} {n : Nat}

def add (vChecks : List T) (w : WorkState T n) : WorkState T n :=
  { w with
    queue := vChecks.reverse ++ w.queue
    nTodo := w.nTodo + UInt32.ofNat vChecks.length
    added := w.added ++ vChecks }

def take (t : ThreadId n) (nNow : Nat) (w : WorkState T n) : WorkState T n :=
  { w with
    queue := w.queue.drop nNow
    batches := Function.update w.batches t (some ⟨w.queue.take nNow, nNow, w.fAllOk⟩) }

def execute (eval : T → Bool) (t : ThreadId n) (check : T) (rest : List T) (nNow : Nat)
    (w : WorkState T n) : WorkState T n :=
  { w with
    executed := check :: w.executed
    batches := Function.update w.batches t (some ⟨rest, nNow, eval check⟩) }

def skip (t : ThreadId n) (check : T) (rest : List T) (nNow : Nat) (w : WorkState T n) :
    WorkState T n :=
  { w with
    skipped := check :: w.skipped
    batches := Function.update w.batches t (some ⟨rest, nNow, false⟩) }

def cleanUp (t : ThreadId n) (nNow : Nat) (fOk : Bool) (w : WorkState T n) : WorkState T n :=
  { w with
    fAllOk := w.fAllOk && fOk
    nTodo := w.nTodo - UInt32.ofNat nNow
    batches := Function.update w.batches t none }

def finish (w : WorkState T n) : WorkState T n :=
  { w with
    fAllOk := true
    fDone := some true
    added := []
    executed := []
    skipped := []
    sessions := ⟨w.added, w.executed, w.fAllOk, w.nTodo, w.queue⟩ :: w.sessions }

/-! ### Sums over the threads -/

theorem sum_update {ι α M : Type} [Fintype ι] [DecidableEq ι] [AddCommMonoid M] (f : α → M)
    (g : ι → α) (t : ι) (a : α) :
    ∑ u, f (Function.update g t a u) + f (g t) = ∑ u, f (g u) + f a := by
  have hrest : ∑ u ∈ Finset.univ.erase t, f (Function.update g t a u) =
      ∑ u ∈ Finset.univ.erase t, f (g u) := by
    apply Finset.sum_congr rfl
    intro u hu
    rw [Function.update_of_ne (Finset.ne_of_mem_erase hu)]
  rw [← Finset.add_sum_erase Finset.univ _ (Finset.mem_univ t),
    ← Finset.add_sum_erase Finset.univ (fun u => f (g u)) (Finset.mem_univ t), hrest,
    Function.update_self]
  abel

variable (b : Option (Batch T))

def inBatch : Nat := b.elim 0 Batch.nNow

/-- The checks of a batch that the thread has still to look at. -/
def leftIn : Multiset T := b.elim 0 fun b => (b.vChecks : Multiset T)

/-- The thread has seen a check fail, or took its batch after one had. -/
def failing : Prop := b.elim False fun b => b.fOk = false

@[simp] theorem not_failing_none : ¬ failing (none : Option (Batch T)) := id

@[simp] theorem failing_some (b : Batch T) : failing (some b) ↔ b.fOk = false := Iff.rfl

def pending (w : WorkState T n) : Nat := w.queue.length + ∑ t, inBatch (w.batches t)

def left (w : WorkState T n) : Multiset T := ∑ t, leftIn (w.batches t)

def Failed (w : WorkState T n) : Prop := w.fAllOk = false ∨ ∃ t, failing (w.batches t)

/-- `nTodo` is the number of pending checks, up to wrap-around. -/
structure Counted (w : WorkState T n) : Prop where
  nTodo_eq : w.nTodo = UInt32.ofNat w.pending
  batch_ok : ∀ t b, w.batches t = some b → 0 < b.nNow ∧ b.vChecks.length ≤ b.nNow

/-! ### Steps of the accounting -/

/-- A thread that is through with its batch reports it. -/
inductive CleansUp (w : WorkState T n) : WorkState T n → Prop where
  | cleanUp {t : ThreadId n} {nNow : Nat} {fOk : Bool} (h : w.batches t = some ⟨[], nNow, fOk⟩) :
    CleansUp w (w.cleanUp t nNow fOk)

/-- What else changes the accounting, with what the code has checked. -/
inductive WorkStep (eval : T → Bool) (w : WorkState T n) : WorkState T n → Prop where
  | construct (h : w.fDone = none) : WorkStep eval w { w with fDone := some false }
  | destroy (h : w.fDone = some true) : WorkStep eval w { w with fDone := none }
  | add (vChecks : List T) (h : w.fDone = some false) : WorkStep eval w (w.add vChecks)
  | take {t : ThreadId n} {nNow : Nat} (h : w.batches t = none) (hpos : 0 < nNow)
    (hle : nNow ≤ w.queue.length) : WorkStep eval w (w.take t nNow)
  | execute {t : ThreadId n} {check : T} {rest : List T} {nNow : Nat}
    (h : w.batches t = some ⟨check :: rest, nNow, true⟩) :
    WorkStep eval w (w.execute eval t check rest nNow)
  | skip {t : ThreadId n} {check : T} {rest : List T} {nNow : Nat}
    (h : w.batches t = some ⟨check :: rest, nNow, false⟩) :
    WorkStep eval w (w.skip t check rest nNow)
  | finish (hqueue : w.queue = []) (htodo : w.nTodo = 0) : WorkStep eval w w.finish

section Keeps

variable {eval : T → Bool} {w w' : WorkState T n}

theorem inBatch_update (w : WorkState T n) (t : ThreadId n) (b : Option (Batch T)) :
    ∑ u, inBatch (Function.update w.batches t b u) + inBatch (w.batches t) =
      ∑ u, inBatch (w.batches u) + inBatch b :=
  sum_update inBatch w.batches t b

variable {t : ThreadId n} {check : T} {rest : List T} {nNow : Nat} {fOk : Bool}

theorem batch_ok_update {b : Batch T} (h : w.Counted)
    (hb : 0 < b.nNow ∧ b.vChecks.length ≤ b.nNow) :
    ∀ u b', Function.update w.batches t (some b) u = some b' →
      0 < b'.nNow ∧ b'.vChecks.length ≤ b'.nNow := by
  intro u b' hb'
  by_cases hu : u = t
  · subst hu
    rw [Function.update_self] at hb'
    obtain rfl := Option.some.inj hb'
    exact hb
  · rw [Function.update_of_ne hu] at hb'
    exact h.batch_ok u b' hb'

theorem Counted.cleansUp (h : w.Counted) (hstep : CleansUp w w') : w'.Counted := by
  obtain @⟨t, nNow, fOk, ht⟩ := hstep
  have hpending : (w.cleanUp t nNow fOk).pending + nNow = w.pending := by
    have hsum := inBatch_update w t none
    simp only [ht, inBatch, Option.elim_some, Option.elim_none] at hsum
    simp only [pending, cleanUp, inBatch]
    omega
  constructor
  · have htodo := h.nTodo_eq
    rw [← hpending, UInt32.ofNat_add] at htodo
    show w.nTodo - UInt32.ofNat nNow = _
    rw [htodo, UInt32.add_sub_cancel]
  · intro u b hb
    by_cases hu : u = t
    · subst hu
      simp only [cleanUp, Function.update_self] at hb
      cases hb
    · simp only [cleanUp, Function.update_of_ne hu] at hb
      exact h.batch_ok u b hb

theorem pending_next {fOk' : Bool} (ht : w.batches t = some ⟨check :: rest, nNow, fOk⟩) :
    ∑ u, inBatch (Function.update w.batches t (some ⟨rest, nNow, fOk'⟩) u) =
      ∑ u, inBatch (w.batches u) := by
  have hsum := inBatch_update w t (some ⟨rest, nNow, fOk'⟩)
  simp only [ht, inBatch, Option.elim_some] at hsum
  exact Nat.add_right_cancel hsum

theorem Counted.next (h : w.Counted) (ht : w.batches t = some ⟨check :: rest, nNow, fOk⟩) :
    0 < nNow ∧ rest.length ≤ nNow := by
  obtain ⟨hpos, hle⟩ := h.batch_ok t _ ht
  exact ⟨hpos, (Nat.le_succ _).trans hle⟩

theorem pending_take (ht : w.batches t = none)
    (hle : nNow ≤ w.queue.length) : (w.take t nNow).pending = w.pending := by
  have hsum := inBatch_update w t (some ⟨w.queue.take nNow, nNow, w.fAllOk⟩)
  simp only [ht, inBatch, Option.elim_some, Option.elim_none] at hsum
  simp only [pending, take, inBatch, List.length_drop]
  omega

theorem pending_add (vChecks : List T) : (w.add vChecks).pending = w.pending + vChecks.length := by
  simp only [pending, add, List.length_append, List.length_reverse]
  omega

theorem Counted.step (h : w.Counted) (hstep : WorkStep eval w w') : w'.Counted := by
  cases hstep with
  | construct | destroy | finish => exact ⟨h.nTodo_eq, h.batch_ok⟩
  | add vChecks =>
    refine ⟨?_, h.batch_ok⟩
    rw [pending_add, UInt32.ofNat_add, ← h.nTodo_eq]
    rfl
  | @take t nNow ht hpos hle =>
    refine ⟨?_, batch_ok_update h ⟨hpos, ?_⟩⟩
    · rw [pending_take ht hle]
      exact h.nTodo_eq
    · exact List.length_take_le nNow w.queue
  | @execute t check rest nNow ht | @skip t check rest nNow ht =>
    refine ⟨?_, batch_ok_update h (h.next ht)⟩
    have htodo := h.nTodo_eq
    rw [pending, ← pending_next ht] at htodo
    exact htodo

/-! ### The verdict -/

/-- Each check in one place; failed just when an executed one is false. -/
structure Sound (eval : T → Bool) (w : WorkState T n) : Prop where
  parts : (w.added : Multiset T) = w.queue + w.left + w.executed + w.skipped
  pending_le : w.pending ≤ w.added.length
  failed_iff : w.Failed ↔ ∃ c ∈ w.executed, eval c = false
  skipped_failed : w.skipped ≠ [] → w.Failed
  fresh : w.fDone ≠ some false → w.added = []
  sessions_exact : ∀ session ∈ w.sessions, session.Exact eval

theorem left_next {fOk' : Bool} (ht : w.batches t = some ⟨check :: rest, nNow, fOk⟩) :
    w.left = ∑ u, leftIn (Function.update w.batches t (some ⟨rest, nNow, fOk'⟩) u) + {check} := by
  have hsum := sum_update leftIn w.batches t (some ⟨rest, nNow, fOk'⟩)
  simp only [ht, leftIn, Option.elim_some, ← Multiset.cons_coe, ← Multiset.singleton_add] at hsum
  rw [← add_assoc] at hsum
  exact (add_right_cancel hsum).symm

theorem failed_iff_split (w : WorkState T n) (t : ThreadId n) :
    w.Failed ↔ w.fAllOk = false ∨ failing (w.batches t) ∨
      ∃ u, u ≠ t ∧ failing (w.batches u) := by
  rw [Failed]
  refine or_congr_right ?_
  constructor
  · rintro ⟨u, hu⟩
    by_cases hut : u = t
    · exact .inl (hut ▸ hu)
    · exact .inr ⟨u, hut, hu⟩
  · rintro (ht | ⟨u, -, hu⟩)
    · exact ⟨t, ht⟩
    · exact ⟨u, hu⟩

theorem exists_failing_update (w : WorkState T n) (t : ThreadId n) (b : Option (Batch T)) :
    (∃ u, failing (Function.update w.batches t b u)) ↔
      failing b ∨ ∃ u, u ≠ t ∧ failing (w.batches u) :=
  Function.exists_update_iff w.batches fun _ => failing

theorem failed_cleanUp
    (ht : w.batches t = some ⟨[], nNow, fOk⟩) : (w.cleanUp t nNow fOk).Failed ↔ w.Failed := by
  rw [failed_iff_split w t, Failed]
  simp only [cleanUp, exists_failing_update, ht, not_failing_none, failing_some,
    Bool.and_eq_false_iff, false_or, or_assoc]

theorem failed_take (ht : w.batches t = none) : (w.take t nNow).Failed ↔ w.Failed := by
  rw [failed_iff_split w t, Failed]
  simp only [take, exists_failing_update, ht, not_failing_none, failing_some, false_or, ← or_assoc,
    or_self]

theorem failed_execute (ht : w.batches t = some ⟨check :: rest, nNow, true⟩) :
    (w.execute eval t check rest nNow).Failed ↔ eval check = false ∨ w.Failed := by
  rw [failed_iff_split w t, Failed]
  simp only [execute, exists_failing_update, ht, failing_some, Bool.true_eq_false, false_or]
  exact or_left_comm

theorem failed_skip (t : ThreadId n) (check : T) (rest : List T) (nNow : Nat) :
    (w.skip t check rest nNow).Failed :=
  .inr ⟨t, by simp only [skip, Function.update_self, failing_some]⟩

theorem Sound.cleansUp (h : w.Sound eval) (hstep : CleansUp w w') : w'.Sound eval := by
  obtain @⟨t, nNow, fOk, ht⟩ := hstep
  have hleft : (w.cleanUp t nNow fOk).left = w.left := by
    have hsum := sum_update leftIn w.batches t none
    rw [ht] at hsum
    exact add_right_cancel (b := (0 : Multiset T)) hsum
  have hpending : (w.cleanUp t nNow fOk).pending ≤ w.pending := by
    have hsum := inBatch_update w t none
    simp only [inBatch, Option.elim_none] at hsum
    simp only [pending, cleanUp, inBatch]
    omega
  exact {
    parts := by rw [hleft]; exact h.parts
    pending_le := hpending.trans h.pending_le
    failed_iff := (failed_cleanUp ht).trans h.failed_iff
    skipped_failed := fun hskipped => (failed_cleanUp ht).mpr (h.skipped_failed hskipped)
    fresh := h.fresh
    sessions_exact := h.sessions_exact }

theorem Counted.pending_eq_zero (hcounted : w.Counted) (h : w.Sound eval)
    (hsmall : w.added.length < 2 ^ 32) (htodo : w.nTodo = 0) : w.pending = 0 := by
  have hzero : (UInt32.ofNat w.pending).toNat = 0 := by rw [← hcounted.nTodo_eq, htodo]; rfl
  rwa [UInt32.toNat_ofNat_of_lt' (h.pending_le.trans_lt hsmall)] at hzero

theorem Counted.batches_eq_none (hcounted : w.Counted) (hpending : w.pending = 0)
    (t : ThreadId n) : w.batches t = none := by
  have hsum : ∑ u, inBatch (w.batches u) = 0 := (Nat.add_eq_zero_iff.mp hpending).2
  have ht : inBatch (w.batches t) = 0 := Finset.sum_eq_zero_iff.mp hsum t (Finset.mem_univ t)
  cases hb : w.batches t with
  | none => rfl
  | some b =>
    rw [hb] at ht
    exact absurd ht (hcounted.batch_ok t b hb).1.ne'

theorem left_eq_zero (hbatches : ∀ t, w.batches t = none) : w.left = 0 := by
  apply Finset.sum_eq_zero
  intro t _
  rw [hbatches t]
  rfl

theorem failed_iff_of_idle (hbatches : ∀ t, w.batches t = none) : w.Failed ↔ w.fAllOk = false := by
  rw [Failed, or_iff_left]
  rintro ⟨t, ht⟩
  rw [hbatches t] at ht
  exact not_failing_none ht

/-- **The verdict of a session is exact** when nothing is queued or in a batch. -/
theorem Sound.exact (h : w.Sound eval) (hqueue : w.queue = [])
    (hbatches : ∀ t, w.batches t = none) (htodo : w.nTodo = 0) :
    CheckSession.Exact eval ⟨w.added, w.executed, w.fAllOk, w.nTodo, w.queue⟩ := by
  have hparts : (w.added : Multiset T) = w.executed + w.skipped := by
    rw [h.parts, hqueue, left_eq_zero hbatches, Multiset.coe_nil, zero_add, zero_add]
  have hfailed : w.fAllOk = false ↔ ∃ c ∈ w.executed, eval c = false :=
    (failed_iff_of_idle hbatches).symm.trans h.failed_iff
  have hsub : List.Subperm w.executed w.added := by
    rw [← Multiset.coe_le, hparts]
    exact Multiset.le_add_right _ _
  have hperm : w.fAllOk = true → w.executed.Perm w.added := by
    intro hok
    have hskipped : w.skipped = [] := by
      by_contra hne
      have hbad := (failed_iff_of_idle hbatches).mp (h.skipped_failed hne)
      rw [hok] at hbad
      cases hbad
    rw [← Multiset.coe_eq_coe, hparts, hskipped, Multiset.coe_nil, add_zero]
  have hresult : w.fAllOk = true ↔ ∀ c ∈ w.added, eval c = true := by
    constructor
    · intro hok c hc
      by_contra hbad
      have hexecuted : c ∈ w.executed := (hperm hok).mem_iff.mpr hc
      have hfalse := hfailed.mpr ⟨c, hexecuted, Bool.eq_false_iff.mpr hbad⟩
      rw [hok] at hfalse
      cases hfalse
    · intro hall
      by_contra hne
      obtain ⟨c, hc, hbad⟩ := hfailed.mp (Bool.eq_false_iff.mpr hne)
      rw [hall c (hsub.subset hc)] at hbad
      cases hbad
  exact ⟨hresult, hsub, fun hall => hperm (hresult.mpr hall), htodo, hqueue⟩

theorem Sound.finish (h : w.Sound eval) (hcounted : w.Counted) (hsmall : w.added.length < 2 ^ 32)
    (hqueue : w.queue = []) (htodo : w.nTodo = 0) : w.finish.Sound eval := by
  have hpending := hcounted.pending_eq_zero h hsmall htodo
  have hbatches := hcounted.batches_eq_none hpending
  have hidle : ¬ w.finish.Failed := by
    rw [failed_iff_of_idle (w := w.finish) hbatches]
    exact Bool.noConfusion
  refine ⟨?_, hpending.le, ?_, fun hskipped => absurd rfl hskipped, fun _ => rfl, ?_⟩
  · show ((([] : List T)) : Multiset T) = w.queue + w.left + _ + _
    rw [hqueue, left_eq_zero hbatches]
    rfl
  · refine iff_of_false hidle ?_
    rintro ⟨c, hc, -⟩
    exact List.not_mem_nil hc
  · intro session hsession
    rcases List.mem_cons.mp hsession with rfl | hold
    · exact h.exact hqueue hbatches htodo
    · exact h.sessions_exact session hold

theorem Sound.add (h : w.Sound eval) (vChecks : List T) (hdone : w.fDone = some false) :
    (w.add vChecks).Sound eval := by
  refine ⟨?_, ?_, h.failed_iff, h.skipped_failed, fun hne => absurd hdone hne, h.sessions_exact⟩
  · have hleft : (w.add vChecks).left = w.left := rfl
    rw [hleft]
    simp only [WorkState.add, ← Multiset.coe_add, Multiset.coe_reverse, h.parts]
    abel
  · rw [pending_add]
    simpa only [WorkState.add, List.length_append, Nat.add_le_add_iff_right] using h.pending_le

theorem left_take (ht : w.batches t = none) :
    (w.take t nNow).left = w.left + (w.queue.take nNow : List T) := by
  have hsum := sum_update leftIn w.batches t (some ⟨w.queue.take nNow, nNow, w.fAllOk⟩)
  have hnone : leftIn (none : Option (Batch T)) = 0 := rfl
  rw [ht, hnone, add_zero] at hsum
  exact hsum

theorem Sound.take (h : w.Sound eval) (ht : w.batches t = none)
    (hle : nNow ≤ w.queue.length) : (w.take t nNow).Sound eval := by
  refine ⟨?_, ?_, (failed_take ht).trans h.failed_iff,
    fun hskipped => (failed_take ht).mpr (h.skipped_failed hskipped), h.fresh, h.sessions_exact⟩
  · have hqueue : (w.queue : Multiset T) = (w.queue.take nNow : List T) +
        (w.queue.drop nNow : List T) := by
      rw [Multiset.coe_add, List.take_append_drop]
    rw [left_take ht]
    simp only [WorkState.take]
    rw [h.parts, hqueue]
    abel
  · rw [pending_take ht hle]
    exact h.pending_le

theorem Sound.execute (h : w.Sound eval) (ht : w.batches t = some ⟨check :: rest, nNow, true⟩) :
    (w.execute eval t check rest nNow).Sound eval := by
  have hleft : w.left = (w.execute eval t check rest nNow).left + {check} := left_next ht
  have hpending : (w.execute eval t check rest nNow).pending = w.pending :=
    congrArg (w.queue.length + ·) (pending_next ht)
  refine ⟨?_, hpending.trans_le h.pending_le, ?_,
    fun hskipped => (failed_execute ht).mpr (.inr (h.skipped_failed hskipped)), h.fresh,
    h.sessions_exact⟩
  · generalize (w.execute eval t check rest nNow).left = l at hleft ⊢
    simp only [WorkState.execute, ← Multiset.cons_coe, ← Multiset.singleton_add]
    rw [h.parts, hleft]
    abel
  · rw [failed_execute ht, h.failed_iff]
    simp only [WorkState.execute, List.exists_mem_cons_iff]

theorem Sound.skip (h : w.Sound eval) (ht : w.batches t = some ⟨check :: rest, nNow, false⟩) :
    (w.skip t check rest nNow).Sound eval := by
  have hleft : w.left = (w.skip t check rest nNow).left + {check} := left_next ht
  have hpending : (w.skip t check rest nNow).pending = w.pending :=
    congrArg (w.queue.length + ·) (pending_next ht)
  have hfailed : w.Failed := .inr ⟨t, by rw [ht]; rfl⟩
  refine ⟨?_, hpending.trans_le h.pending_le,
    iff_of_true (failed_skip t check rest nNow) (h.failed_iff.mp hfailed),
    fun _ => failed_skip t check rest nNow, h.fresh, h.sessions_exact⟩
  generalize (w.skip t check rest nNow).left = l at hleft ⊢
  simp only [WorkState.skip, ← Multiset.cons_coe, ← Multiset.singleton_add]
  rw [h.parts, hleft]
  abel

theorem Sound.step (h : w.Sound eval) (hcounted : w.Counted) (hsmall : w.added.length < 2 ^ 32)
    (hstep : WorkStep eval w w') : w'.Sound eval := by
  cases hstep with
  | construct hdone =>
    exact ⟨h.parts, h.pending_le, h.failed_iff, h.skipped_failed, fun hne => absurd rfl hne,
      h.sessions_exact⟩
  | destroy hdone =>
    have hfresh : w.added = [] := h.fresh (by rw [hdone]; decide)
    exact ⟨h.parts, h.pending_le, h.failed_iff, h.skipped_failed, fun _ => hfresh,
      h.sessions_exact⟩
  | add vChecks hdone => exact h.add vChecks hdone
  | take ht hpos hle => exact h.take ht hle
  | execute ht => exact h.execute ht
  | skip ht => exact h.skip ht
  | finish hqueue htodo => exact h.finish hcounted hsmall hqueue htodo

end Keeps

end WorkState

end VBitcoin
