import VBitcoin.ActiveChain
import VBitcoin.MedianTimePast

/-!
**Deployment states** — `AbstractThresholdConditionChecker`, the state machine of a soft fork
over whole periods.  `GetStateFor` walks back to a block whose state is in the cache, or to one
before the start time, and then computes forward.  Every entry of a cache is a value of
`periodState`, whichever calls wrote it.
-/

namespace VBitcoin

open CBlockIndex

inductive ThresholdState where
  | DEFINED
  | STARTED
  | LOCKED_IN
  | ACTIVE
  | FAILED
  deriving DecidableEq, Repr

def ALWAYS_ACTIVE : Int := -1

/-- What a subclass of `AbstractThresholdConditionChecker` gives. -/
structure ThresholdConditionChecker where
  condition : CBlockIndex → Bool
  beginTime : Int
  endTime : Int
  period : Nat
  threshold : Int

abbrev ThresholdConditionCache := Option CBlockIndex → Option ThresholdState

def ThresholdConditionCache.set (cache : ThresholdConditionCache) (pindex : Option CBlockIndex)
    (state : ThresholdState) : ThresholdConditionCache :=
  fun key => if key = pindex then some state else cache key

namespace ThresholdConditionChecker

/-! ### `GetStateFor` -/

/-- The parent of the first block of the next block's period. -/
def periodParent (chk : ThresholdConditionChecker) (pindexPrev : CBlockIndex) :
    Option CBlockIndex :=
  pindexPrev.getAncestorAt
    ((pindexPrev.nHeight : Int) - ((pindexPrev.nHeight + 1) % chk.period : Nat))

def previousParent (chk : ThresholdConditionChecker) (pindexPrev : CBlockIndex) :
    Option CBlockIndex :=
  pindexPrev.getAncestorAt ((pindexPrev.nHeight : Int) - chk.period)

/-- Where it stops, the blocks to compute, and the cache. -/
def walkBack (chk : ThresholdConditionChecker) : Nat → ThresholdConditionCache →
    Option CBlockIndex → List CBlockIndex →
    Run (Option CBlockIndex × List CBlockIndex × ThresholdConditionCache)
  | 0, _, _, _ => .error (.undefined "the loop goes on")
  | turns + 1, cache, pindexPrev, vToCompute =>
    if (cache pindexPrev).isSome then pure (pindexPrev, vToCompute, cache)
    else
      match pindexPrev with
      | none => pure (none, vToCompute, cache.set none .DEFINED)
      | some pindex =>
        if (pindex.getMedianTimePast : Int) < chk.beginTime then
          pure (some pindex, vToCompute, cache.set (some pindex) .DEFINED)
        else chk.walkBack turns cache (chk.previousParent pindex) (pindex :: vToCompute)

def countSignals (chk : ThresholdConditionChecker) : Nat → List IndexEntry → Nat → Run Nat
  | 0, _, count => pure count
  | _ + 1, [], _ => .error (.undefined "Condition(nullptr)")
  | i + 1, entry :: ancestors, count =>
    chk.countSignals i ancestors (if chk.condition ⟨entry, ancestors⟩ then count + 1 else count)

def stateNext (chk : ThresholdConditionChecker) (pindexPrev : CBlockIndex) :
    ThresholdState → Run ThresholdState
  | .DEFINED =>
    pure (if chk.endTime ≤ pindexPrev.getMedianTimePast then .FAILED
      else if chk.beginTime ≤ pindexPrev.getMedianTimePast then .STARTED
      else .DEFINED)
  | .STARTED =>
    if chk.endTime ≤ pindexPrev.getMedianTimePast then pure .FAILED
    else do
      let count ← chk.countSignals chk.period pindexPrev.path 0
      pure (if chk.threshold ≤ count then .LOCKED_IN else .STARTED)
  | .LOCKED_IN => pure .ACTIVE
  | .FAILED => pure .FAILED
  | .ACTIVE => pure .ACTIVE

def walkForward (chk : ThresholdConditionChecker) : List CBlockIndex → ThresholdState →
    ThresholdConditionCache → Run (ThresholdState × ThresholdConditionCache)
  | [], state, cache => pure (state, cache)
  | pindexPrev :: vToCompute, state, cache => do
    let next ← chk.stateNext pindexPrev state
    chk.walkForward vToCompute next (cache.set (some pindexPrev) next)

/-- The number of turns after which the backward walk is through. -/
def turns (pindexPrev : Option CBlockIndex) : Nat := (pindexPrev.map (·.nHeight + 1)).getD 0 + 1

def getStateFor (chk : ThresholdConditionChecker) (cache : ThresholdConditionCache)
    (pindexPrev : Option CBlockIndex) : Run (ThresholdState × ThresholdConditionCache) :=
  if chk.beginTime = ALWAYS_ACTIVE then pure (.ACTIVE, cache)
  else if chk.period = 0 ∧ pindexPrev ≠ none then .error (.undefined "% nPeriod")
  else do
    let pindexPrev := pindexPrev.bind chk.periodParent
    let (pindexPrev, vToCompute, cache) ← chk.walkBack (turns pindexPrev) cache pindexPrev []
    match cache pindexPrev with
    | none => .error (.assertion "cache.count(pindexPrev)")
    | some state => chk.walkForward vToCompute state cache

/-! ### `GetStateSinceHeightFor` -/

def sinceLoop (chk : ThresholdConditionChecker) (initialState : ThresholdState) : Nat →
    ThresholdConditionCache → CBlockIndex → Run (CBlockIndex × ThresholdConditionCache)
  | 0, _, _ => .error (.undefined "the loop goes on")
  | turns + 1, cache, pindexPrev =>
    match chk.previousParent pindexPrev with
    | none => pure (pindexPrev, cache)
    | some previousPeriodParent => do
      let (state, cache) ← chk.getStateFor cache (some previousPeriodParent)
      if state = initialState then chk.sinceLoop initialState turns cache previousPeriodParent
      else pure (pindexPrev, cache)

def getStateSinceHeightFor (chk : ThresholdConditionChecker) (cache : ThresholdConditionCache)
    (pindexPrev : Option CBlockIndex) : Run (Nat × ThresholdConditionCache) :=
  if chk.beginTime = ALWAYS_ACTIVE then pure (0, cache)
  else do
    let (initialState, cache) ← chk.getStateFor cache pindexPrev
    if initialState = .DEFINED then pure (0, cache)
    else
      match pindexPrev.bind chk.periodParent with
      | none => .error (.undefined "pindexPrev->nHeight")
      | some pindexPrev => do
        let (pindexPrev, cache) ←
          chk.sinceLoop initialState (turns (some pindexPrev)) cache pindexPrev
        pure (pindexPrev.nHeight + 1, cache)

/-! ### The plain definition -/

variable (chk : ThresholdConditionChecker)

def signalling (b : CBlockIndex) (k : Nat) : Nat :=
  (List.range' (k * chk.period) chk.period).countP fun h => (b.getAncestor h).any chk.condition

/-- The median time past at the end of a period of the branch. -/
def periodTime (b : CBlockIndex) (k : Nat) : Int :=
  ((b.getAncestor ((k + 1) * chk.period - 1)).map fun a => (a.getMedianTimePast : Int)).getD 0

/-- The state of a period, from the state and the blocks of the period before. -/
def periodState (b : CBlockIndex) : Nat → ThresholdState
  | 0 => .DEFINED
  | k + 1 =>
    match periodState b k with
    | .DEFINED =>
      if chk.endTime ≤ chk.periodTime b k then .FAILED
      else if chk.beginTime ≤ chk.periodTime b k then .STARTED
      else .DEFINED
    | .STARTED =>
      if chk.endTime ≤ chk.periodTime b k then .FAILED
      else if chk.threshold ≤ chk.signalling b k then .LOCKED_IN
      else .STARTED
    | .LOCKED_IN => .ACTIVE
    | .ACTIVE => .ACTIVE
    | .FAILED => .FAILED

/-- The state of the block after `pindexPrev`, by the number of its period. -/
def plainState : Option CBlockIndex → ThresholdState
  | none => .DEFINED
  | some b => chk.periodState b ((b.nHeight + 1) / chk.period)

/-- The state of a deployment that may be marked as always active. -/
def deploymentState (b : Option CBlockIndex) : ThresholdState :=
  if chk.beginTime = ALWAYS_ACTIVE then .ACTIVE else chk.plainState b

/-! ### The plain definition looks at the branch only -/

variable {chk} {a b q : CBlockIndex}

variable {k : Nat}

theorem periodState_of_le (h : a ≤ b) (hk : k * chk.period ≤ a.nHeight + 1) :
    chk.periodState b k = chk.periodState a k := by
  induction k with
  | zero => rfl
  | succ k ih =>
    rw [Nat.succ_mul] at hk
    have htime : chk.periodTime b k = chk.periodTime a k := by
      rw [periodTime, periodTime, getAncestor_of_le h]
      rw [Nat.succ_mul]
      omega
    have hsignalling : chk.signalling b k = chk.signalling a k := by
      apply List.countP_congr
      intro n hn
      have := (List.mem_range'_1.mp hn).2
      rw [getAncestor_of_le h (by omega)]
    rw [periodState, periodState, ih (by omega), htime, hsignalling]

theorem plainState_of_le (h : a ≤ b)
    (hperiod : (b.nHeight + 1) / chk.period = (a.nHeight + 1) / chk.period) :
    chk.plainState (some b) = chk.plainState (some a) := by
  rw [plainState, plainState, hperiod]
  exact periodState_of_le h (Nat.div_mul_le_self _ _)

/-! ### The blocks that the walk visits -/

theorem getAncestorAt_cases (b : CBlockIndex) {h : Int} (hh : h ≤ b.nHeight) :
    (h < 0 ∧ b.getAncestorAt h = none) ∨
      ∃ a, a ≤ b ∧ (a.nHeight : Int) = h ∧ b.getAncestorAt h = some a := by
  rcases Int.lt_or_le h 0 with hneg | hpos
  · exact Or.inl ⟨hneg, if_pos hneg⟩
  · right
    obtain ⟨a, ha, hheight⟩ := b.exists_le_nHeight (h := h.toNat) (by omega)
    refine ⟨a, ha, by omega, ?_⟩
    rw [getAncestorAt, if_neg (by omega), ← hheight]
    exact getAncestor_eq_some_iff.mpr ha

def Aligned (chk : ThresholdConditionChecker) (b : CBlockIndex) : Prop :=
  chk.period ∣ b.nHeight + 1

theorem periodParent_cases (hperiod : 1 ≤ chk.period) (b : CBlockIndex) :
    (chk.periodParent b = none ∧ b.nHeight + 1 < chk.period) ∨
      ∃ a, chk.periodParent b = some a ∧ a ≤ b ∧
        a.nHeight + 1 = (b.nHeight + 1) / chk.period * chk.period := by
  have hdiv := Nat.div_add_mod' (b.nHeight + 1) chk.period
  rcases getAncestorAt_cases b (h := (b.nHeight : Int) - ((b.nHeight + 1) % chk.period : Nat))
    (by omega) with ⟨hneg, hnone⟩ | ⟨a, ha, hheight, hsome⟩
  · left
    refine ⟨hnone, ?_⟩
    have hzero : (b.nHeight + 1) / chk.period * chk.period = 0 := by omega
    rcases Nat.mul_eq_zero.mp hzero with hz | hz
    · exact (Nat.div_eq_zero_iff.mp hz).resolve_left (by omega)
    · omega
  · exact Or.inr ⟨a, hsome, ha, by omega⟩

theorem plainState_periodParent (hperiod : 1 ≤ chk.period) (b : CBlockIndex) :
    chk.plainState (chk.periodParent b) = chk.plainState (some b) := by
  rcases periodParent_cases hperiod b with ⟨hnone, hlt⟩ | ⟨a, hsome, ha, hheight⟩
  · rw [hnone, plainState, plainState, Nat.div_eq_of_lt hlt]
    rfl
  · rw [hsome]
    refine (plainState_of_le ha ?_).symm
    rw [hheight, Nat.mul_div_cancel _ hperiod]

theorem previousParent_cases (hperiod : 1 ≤ chk.period)
    (hq : q.nHeight + 1 = (k + 1) * chk.period) :
    (k = 0 ∧ chk.previousParent q = none) ∨
      ∃ a, 1 ≤ k ∧ chk.previousParent q = some a ∧ a ≤ q ∧ a.nHeight + 1 = k * chk.period := by
  rw [Nat.succ_mul] at hq
  rcases getAncestorAt_cases q (h := (q.nHeight : Int) - chk.period) (by omega) with
    ⟨hneg, hnone⟩ | ⟨a, ha, hheight, hsome⟩
  · left
    refine ⟨?_, hnone⟩
    have hzero : k * chk.period = 0 := by omega
    exact (Nat.mul_eq_zero.mp hzero).resolve_right (by omega)
  · right
    refine ⟨a, ?_, hsome, ha, by omega⟩
    apply Nat.pos_of_ne_zero
    rintro rfl
    omega

theorem plainState_previousParent (hperiod : 1 ≤ chk.period)
    (hq : q.nHeight + 1 = (k + 1) * chk.period) :
    chk.plainState (chk.previousParent q) = chk.periodState q k := by
  rcases previousParent_cases hperiod hq with ⟨rfl, hnone⟩ | ⟨a, _, hsome, ha, hheight⟩
  · rw [hnone]
    rfl
  · rw [hsome, plainState, hheight, Nat.mul_div_cancel _ hperiod]
    exact (periodState_of_le ha hheight.ge).symm

/-! ### One period -/

theorem countSignals_eq {n : Nat} : ∀ {q : CBlockIndex} {count : Nat}, n ≤ q.nHeight + 1 →
    chk.countSignals n q.path count = .ok (count +
      (List.range' (q.nHeight + 1 - n) n).countP fun h => (q.getAncestor h).any chk.condition) := by
  induction n with
  | zero => exact fun _ => rfl
  | succ n ih =>
    intro q count hn
    -- the loop looks at `q` first, the highest of the range
    have hself : q.getAncestor q.nHeight = some q := getAncestor_eq_some_iff.mpr (le_refl q)
    have hlast : (List.range' (q.nHeight + 1 - (n + 1)) (n + 1)) =
        List.range' (q.nHeight - n) n ++ [q.nHeight] := by
      rw [List.range'_1_concat]
      congr 2
      · omega
      · omega
    have hunfold : chk.countSignals (n + 1) q.path count =
        chk.countSignals n q.ancestors (if chk.condition q then count + 1 else count) := rfl
    rw [hunfold, hlast, List.countP_append, List.countP_singleton, hself]
    cases hp : q.pprev with
    | none =>
      have hzero := nHeight_of_pprev_none hp
      obtain rfl : n = 0 := by omega
      simp only [countSignals, Option.any_some, pure, Except.pure]
      split <;> simp
    | some p =>
      have hheight := nHeight_pprev hp
      have hrange : ((List.range' (q.nHeight - n) n).countP
            fun h => (q.getAncestor h).any chk.condition) =
          (List.range' (p.nHeight + 1 - n) n).countP
            fun h => (p.getAncestor h).any chk.condition := by
        rw [hheight]
        apply List.countP_congr
        intro h hmem
        have := (List.mem_range'_1.mp hmem).2
        rw [getAncestor_of_le (pprev_le hp) (by omega)]
      rw [pprev_eq_some.mp hp, ih (by omega), hrange, Option.any_some]
      congr 1
      split <;> omega

theorem stateNext_eq (hq : q.nHeight + 1 = (k + 1) * chk.period) :
    chk.stateNext q (chk.periodState q k) = .ok (chk.periodState q (k + 1)) := by
  have htime : chk.periodTime q k = q.getMedianTimePast := by
    rw [periodTime, ← hq, Nat.add_sub_cancel, getAncestor_eq_some_iff.mpr (le_refl q)]
    rfl
  rw [Nat.succ_mul] at hq
  have hcount : chk.countSignals chk.period q.path 0 = .ok (chk.signalling q k) := by
    have hstart : q.nHeight + 1 - chk.period = k * chk.period := by omega
    rw [countSignals_eq (by omega), Nat.zero_add, hstart]
    rfl
  rw [periodState]
  cases chk.periodState q k with
  | DEFINED =>
    simp only [stateNext, htime]
    rfl
  | STARTED =>
    simp only [stateNext, htime, hcount]
    split <;> rfl
  | LOCKED_IN => rfl
  | ACTIVE => rfl
  | FAILED => rfl

theorem Aligned.exists_succ (hq : chk.Aligned q) :
    ∃ k, q.nHeight + 1 = (k + 1) * chk.period := by
  obtain ⟨k, hk⟩ := hq
  have hpos : k ≠ 0 := by
    rintro rfl
    omega
  obtain ⟨k, rfl⟩ := Nat.exists_eq_succ_of_ne_zero hpos
  exact ⟨k, hk.trans (Nat.mul_comm _ _)⟩

theorem Aligned.stateNext (hperiod : 1 ≤ chk.period) (hq : chk.Aligned q) :
    chk.stateNext q (chk.plainState (chk.previousParent q)) = .ok (chk.plainState (some q)) := by
  obtain ⟨k, hk⟩ := hq.exists_succ
  rw [plainState_previousParent hperiod hk, plainState, hk, Nat.mul_div_cancel _ hperiod]
  exact stateNext_eq hk

theorem plainState_eq_defined (hstart : chk.beginTime ≤ chk.endTime) (htimes : TimesOk q)
    (hbefore : (q.getMedianTimePast : Int) < chk.beginTime) :
    chk.plainState (some q) = .DEFINED := by
  have hall : ∀ k, k * chk.period ≤ q.nHeight + 1 → chk.periodState q k = .DEFINED := by
    intro k
    induction k with
    | zero => exact fun _ => rfl
    | succ k ih =>
      intro hk
      rw [Nat.succ_mul] at hk
      have htime : chk.periodTime q k ≤ q.getMedianTimePast := by
        obtain ⟨a, ha, hheight⟩ := q.exists_le_nHeight (h := (k + 1) * chk.period - 1)
          (by rw [Nat.succ_mul]; omega)
        rw [periodTime, ← hheight, getAncestor_eq_some_iff.mpr ha]
        exact Int.ofNat_le.mpr (getMedianTimePast_mono htimes ha)
      rw [periodState, ih (by omega)]
      simp only
      rw [if_neg (by omega), if_neg (by omega)]
  exact hall _ (Nat.div_mul_le_self _ _)

/-! ### The cache -/

/-- Whatever is in the cache is what the plain definition gives. -/
def CacheOk (chk : ThresholdConditionChecker) (cache : ThresholdConditionCache) : Prop :=
  ∀ key state, cache key = some state → state = chk.plainState key

variable {cache cache' : ThresholdConditionCache}

theorem CacheOk.set (h : chk.CacheOk cache) (key : Option CBlockIndex) :
    chk.CacheOk (cache.set key (chk.plainState key)) := by
  intro other state hstate
  unfold ThresholdConditionCache.set at hstate
  split at hstate
  · rename_i heq
    cases hstate
    rw [heq]
  · exact h other state hstate

theorem set_self (cache : ThresholdConditionCache) (key : Option CBlockIndex)
    (state : ThresholdState) : cache.set key state key = some state := if_pos rfl

/-- The stack leads one period at a time up to the block asked for. -/
inductive Leads (chk : ThresholdConditionChecker) :
    Option CBlockIndex → List CBlockIndex → Option CBlockIndex → Prop
  | done (p : Option CBlockIndex) : Leads chk p [] p
  | step {p : Option CBlockIndex} {q : CBlockIndex} {stack : List CBlockIndex}
      {p₀ : Option CBlockIndex} : chk.Aligned q → chk.previousParent q = p →
      Leads chk (some q) stack p₀ → Leads chk p (q :: stack) p₀

/-- What the backward walk knows of the block it stands at. -/
def Visited (chk : ThresholdConditionChecker) (p : Option CBlockIndex) : Prop :=
  ∀ q, p = some q → chk.Aligned q ∧ TimesOk q

theorem Visited.previousParent (hperiod : 1 ≤ chk.period) (h : chk.Visited (some q)) :
    chk.Visited (chk.previousParent q) ∧ turns (chk.previousParent q) < turns (some q) := by
  obtain ⟨haligned, htimes⟩ := h q rfl
  obtain ⟨k, hk⟩ := haligned.exists_succ
  rcases previousParent_cases hperiod hk with ⟨_, hnone⟩ | ⟨a, _, hsome, ha, hheight⟩
  · rw [hnone]
    constructor
    · exact fun _ hp => by cases hp
    · simp [turns]
  · rw [hsome]
    constructor
    · rintro _ ⟨⟩
      exact ⟨⟨k, by rw [hheight, Nat.mul_comm]⟩, htimes.of_le ha⟩
    · rw [Nat.succ_mul] at hk
      simp only [turns, Option.map_some, Option.getD_some]
      omega

section Walk

variable (hperiod : 1 ≤ chk.period) (hstart : chk.beginTime ≤ chk.endTime)
include hperiod hstart

variable {n : Nat} {p₀ : Option CBlockIndex}

theorem walkBack_spec :
    ∀ {p : Option CBlockIndex} {stack : List CBlockIndex}, turns p ≤ n → chk.CacheOk cache →
      chk.Visited p → chk.Leads p stack p₀ →
      ∃ stop stack' cache', chk.walkBack n cache p stack = .ok (stop, stack', cache') ∧
        chk.Leads stop stack' p₀ ∧ chk.CacheOk cache' ∧
        cache' stop = some (chk.plainState stop) := by
  induction n with
  | zero =>
    intro p stack hn
    simp [turns] at hn
  | succ n ih =>
    intro p stack hn hok hvisited hleads
    rw [walkBack.eq_def]
    dsimp only
    cases hcached : cache p with
    | some state =>
      refine ⟨p, stack, cache, rfl, hleads, hok, ?_⟩
      rw [hcached, hok p state hcached]
    | none =>
      rw [if_neg (by simp)]
      cases p with
      | none =>
        exact ⟨none, stack, _, rfl, hleads, hok.set none, set_self _ _ _⟩
      | some q =>
        simp only
        split
        · rename_i hbefore
          -- the state is written unseen, but it is the right one
          have hdefined := plainState_eq_defined hstart (hvisited q rfl).2 hbefore
          refine ⟨some q, stack, _, rfl, hleads, ?_, ?_⟩
          · rw [← hdefined]
            exact hok.set (some q)
          · rw [set_self, hdefined]
        · obtain ⟨hprevious, hturns⟩ := hvisited.previousParent hperiod
          exact ih (by omega) hok hprevious (.step (hvisited q rfl).1 rfl hleads)

omit hstart in
theorem walkForward_spec {stack : List CBlockIndex} {p : Option CBlockIndex}
    (hleads : chk.Leads p stack p₀) : ∀ {cache : ThresholdConditionCache}, chk.CacheOk cache →
      ∃ cache', chk.walkForward stack (chk.plainState p) cache = .ok (chk.plainState p₀, cache') ∧
        chk.CacheOk cache' := by
  induction hleads with
  | done p => exact fun {cache} hok => ⟨cache, rfl, hok⟩
  | step haligned hprevious _ ih =>
    intro cache hok
    rw [walkForward, ← hprevious, haligned.stateNext hperiod]
    exact ih (hok.set _)

theorem getStateFor_spec (hok : chk.CacheOk cache) {b : Option CBlockIndex}
    (htimes : ∀ x, b = some x → TimesOk x) :
    ∃ cache', chk.getStateFor cache b = .ok (chk.deploymentState b, cache') ∧
      chk.CacheOk cache' := by
  unfold getStateFor deploymentState
  split
  · exact ⟨cache, rfl, hok⟩
  · rw [if_neg (by omega)]
    have hvisited : chk.Visited (b.bind chk.periodParent) := by
      intro q hq
      obtain ⟨x, rfl, hx⟩ := Option.bind_eq_some_iff.mp hq
      rcases periodParent_cases hperiod x with ⟨hnone, _⟩ | ⟨a, hsome, ha, hheight⟩
      · rw [hnone] at hx
        cases hx
      · rw [hsome] at hx
        cases hx
        exact ⟨⟨_, by rw [hheight, Nat.mul_comm]⟩, (htimes x rfl).of_le ha⟩
    have hplain : chk.plainState (b.bind chk.periodParent) = chk.plainState b := by
      cases b with
      | none => rfl
      | some x => exact plainState_periodParent hperiod x
    obtain ⟨stop, stack, cache₁, hback, hleads, hok₁, hstop⟩ :=
      walkBack_spec hperiod hstart (le_refl _) hok hvisited (.done _)
    obtain ⟨cache₂, hforward, hok₂⟩ := walkForward_spec hperiod hleads hok₁
    refine ⟨cache₂, ?_, hok₂⟩
    dsimp only
    rw [hback, ← hplain]
    simp only [bind, Except.bind, hstop]
    exact hforward

/-- It ends before the first period of the state. -/
theorem sinceLoop_spec (halways : chk.beginTime ≠ ALWAYS_ACTIVE) (htimes : TimesOk b)
    {state : ThresholdState} (hstate : state ≠ .DEFINED) :
    ∀ {q : CBlockIndex} {k : Nat} {cache : ThresholdConditionCache}, turns (some q) ≤ n →
      chk.CacheOk cache → q ≤ b → q.nHeight + 1 = (k + 1) * chk.period →
      ∃ q' cache' k', chk.sinceLoop state n cache q = .ok (q', cache') ∧
        q'.nHeight + 1 = (k' + 1) * chk.period ∧ k' ≤ k ∧
        (∀ j, k' < j → j ≤ k → chk.periodState b j = state) ∧ chk.periodState b k' ≠ state := by
  induction n with
  | zero =>
    intro q k cache hn
    simp [turns] at hn
  | succ n ih =>
    intro q k cache hn hok hqb hq
    rw [sinceLoop]
    rcases previousParent_cases hperiod hq with ⟨rfl, hnone⟩ | ⟨a, hk, hsome, ha, hheight⟩
    · rw [hnone]
      exact ⟨q, cache, 0, rfl, hq, le_refl 0, fun j hj hj' => by omega, hstate.symm⟩
    · have hab := ha.trans hqb
      obtain ⟨cache₁, hget, hok₁⟩ := getStateFor_spec hperiod hstart hok (b := some a)
        (fun x hx => by cases hx; exact htimes.of_le hab)
      have hplain : chk.deploymentState (some a) = chk.periodState b k := by
        rw [deploymentState, if_neg halways, plainState, hheight, Nat.mul_div_cancel _ hperiod]
        exact (periodState_of_le hab hheight.ge).symm
      rw [hplain] at hget
      rw [hsome]
      simp only [hget, bind, Except.bind]
      split
      · rename_i hsame
        -- the period before has the same state: go on from there
        obtain ⟨k, rfl⟩ : ∃ j, k = j + 1 := ⟨k - 1, by omega⟩
        have hturns : turns (some a) ≤ n := by
          rw [Nat.add_one_mul (k + 1)] at hq
          simp only [turns, Option.map_some, Option.getD_some] at hn ⊢
          omega
        obtain ⟨q', cache', k', hloop, hq', hk', hheld, hbefore⟩ := ih hturns hok₁ hab hheight
        refine ⟨q', cache', k', hloop, hq', by omega, ?_, hbefore⟩
        intro j hj hjk
        rcases Nat.lt_or_ge k j with hlt | hle
        · obtain rfl : j = k + 1 := by omega
          exact hsame
        · exact hheld j hj hle
      · rename_i hother
        exact ⟨q, cache₁, k, rfl, hq, le_refl k, fun j hj hj' => by omega, hother⟩

end Walk

/-! ### States along a branch -/

theorem periodState_defined_of_le {j : Nat} (h : chk.periodState b k = .DEFINED) (hj : j ≤ k) :
    chk.periodState b j = .DEFINED := by
  induction k with
  | zero =>
    obtain rfl : j = 0 := by omega
    rfl
  | succ k ih =>
    rcases Nat.eq_or_lt_of_le hj with rfl | hlt
    · exact h
    · refine ih ?_ (by omega)
      rw [periodState] at h
      cases hk : chk.periodState b k with
      | DEFINED => rfl
      | STARTED =>
        rw [hk] at h
        simp only at h
        split at h
        · cases h
        · split at h <;> cases h
      | LOCKED_IN =>
        rw [hk] at h
        cases h
      | ACTIVE =>
        rw [hk] at h
        cases h
      | FAILED =>
        rw [hk] at h
        cases h

/-- At a height of the branch of `b`, or just after it. -/
def blockState (chk : ThresholdConditionChecker) (b : Option CBlockIndex) (h : Nat) :
    ThresholdState :=
  chk.deploymentState (b.bind fun b => b.getAncestorAt ((h : Int) - 1))

theorem blockState_eq_periodState (halways : chk.beginTime ≠ ALWAYS_ACTIVE) {h : Nat}
    (hh : h ≤ b.nHeight + 1) : chk.blockState (some b) h = chk.periodState b (h / chk.period) := by
  rw [blockState, deploymentState, if_neg halways, Option.bind_some]
  rcases getAncestorAt_cases b (h := (h : Int) - 1) (by omega) with
    ⟨hneg, hnone⟩ | ⟨a, ha, hheight, hsome⟩
  · obtain rfl : h = 0 := by omega
    rw [hnone, Nat.zero_div]
    rfl
  · obtain rfl : h = a.nHeight + 1 := by omega
    rw [hsome, plainState]
    exact (periodState_of_le ha (Nat.div_mul_le_self _ _)).symm

/-- The state of the block after `b` has held from a height on, and no longer. -/
structure HeldSince (chk : ThresholdConditionChecker) (b : Option CBlockIndex) (since : Nat) :
    Prop where
  le : since ≤ heightAfter b
  held : ∀ h, since ≤ h → h ≤ heightAfter b → chk.blockState b h = chk.deploymentState b
  first : 0 < since → chk.blockState b (since - 1) ≠ chk.deploymentState b

theorem deploymentState_eq_periodState (halways : chk.beginTime ≠ ALWAYS_ACTIVE) :
    chk.deploymentState (some b) = chk.periodState b ((b.nHeight + 1) / chk.period) := by
  rw [deploymentState, if_neg halways]
  rfl

theorem heldSince_zero_of_defined (h : chk.deploymentState (some b) = .DEFINED) :
    chk.HeldSince (some b) 0 := by
  have halways : chk.beginTime ≠ ALWAYS_ACTIVE := by
    intro halways
    rw [deploymentState, if_pos halways] at h
    cases h
  refine ⟨Nat.zero_le _, fun n _ hn => ?_, fun hpos => absurd hpos (lt_irrefl 0)⟩
  rw [h, blockState_eq_periodState halways hn]
  rw [deploymentState_eq_periodState halways] at h
  exact periodState_defined_of_le h (Nat.div_le_div_right hn)

theorem heldSince_of_period (hperiod : 1 ≤ chk.period) (halways : chk.beginTime ≠ ALWAYS_ACTIVE)
    (hk : k < (b.nHeight + 1) / chk.period) (hheld : ∀ j, k < j → j ≤ (b.nHeight + 1) / chk.period →
      chk.periodState b j = chk.deploymentState (some b))
    (hbefore : chk.periodState b k ≠ chk.deploymentState (some b)) :
    chk.HeldSince (some b) ((k + 1) * chk.period) := by
  have hle : (k + 1) * chk.period ≤ b.nHeight + 1 := (Nat.le_div_iff_mul_le hperiod).mp hk
  refine ⟨hle, fun h hsince hh => ?_, fun _ => ?_⟩
  · rw [blockState_eq_periodState halways hh]
    exact hheld _ ((Nat.le_div_iff_mul_le hperiod).mpr hsince) (Nat.div_le_div_right hh)
  · rw [blockState_eq_periodState halways (by omega)]
    have hdiv : ((k + 1) * chk.period - 1) / chk.period = k := by
      apply Nat.div_eq_of_lt_le
      · rw [Nat.succ_mul]
        omega
      · have : 0 < (k + 1) * chk.period := Nat.mul_pos (Nat.succ_pos k) hperiod
        omega
    rwa [hdiv]

theorem getStateSinceHeightFor_spec (hperiod : 1 ≤ chk.period)
    (hstart : chk.beginTime ≤ chk.endTime) (hok : chk.CacheOk cache) {b : Option CBlockIndex}
    (htimes : ∀ x, b = some x → TimesOk x) :
    ∃ since cache', chk.getStateSinceHeightFor cache b = .ok (since, cache') ∧
      chk.HeldSince b since := by
  unfold getStateSinceHeightFor
  split
  · rename_i halways
    refine ⟨0, cache, rfl, Nat.zero_le _, fun h _ _ => ?_, fun hpos => absurd hpos (lt_irrefl 0)⟩
    rw [blockState, deploymentState, deploymentState, if_pos halways, if_pos halways]
  · rename_i halways
    obtain ⟨cache₁, hget, hok₁⟩ := getStateFor_spec hperiod hstart hok htimes
    simp only [hget, bind, Except.bind]
    split
    · rename_i hdefined
      refine ⟨0, cache₁, rfl, ?_⟩
      cases b with
      | some x => exact heldSince_zero_of_defined hdefined
      | none =>
        refine ⟨le_refl 0, fun h _ _ => rfl, fun hpos => absurd hpos (lt_irrefl 0)⟩
    · rename_i hstate
      cases b with
      | none =>
        rw [deploymentState, if_neg halways] at hstate
        exact absurd rfl hstate
      | some x =>
        rw [Option.bind_some]
        rcases periodParent_cases hperiod x with ⟨_, hlt⟩ | ⟨q, hsome, hqx, hheight⟩
        · rw [deploymentState_eq_periodState halways, Nat.div_eq_of_lt hlt] at hstate
          exact absurd rfl hstate
        · obtain ⟨k, hk⟩ : ∃ k, (x.nHeight + 1) / chk.period = k + 1 := by
            refine ⟨(x.nHeight + 1) / chk.period - 1, (Nat.sub_add_cancel ?_).symm⟩
            apply Nat.pos_of_ne_zero
            intro hzero
            rw [hzero] at hheight
            omega
          obtain ⟨q', cache', k', hloop, hq', hk', hheld, hbefore⟩ :=
            sinceLoop_spec hperiod hstart halways (htimes x rfl) hstate (le_refl _) hok₁ hqx
              (hk ▸ hheight)
          rw [hsome]
          simp only [hloop, hq']
          refine ⟨_, _, rfl, heldSince_of_period hperiod halways (by omega) ?_ hbefore⟩
          intro j hj hjk
          rcases Nat.lt_or_ge k j with hlt | hle
          · obtain rfl : j = (x.nHeight + 1) / chk.period := by omega
            exact (deploymentState_eq_periodState halways).symm
          · exact hheld j hj hle

/-! ### Any order of calls -/

/-- What calls of `GetStateFor` on a tree leave behind. -/
inductive Filled (chk : ThresholdConditionChecker) (tree : Set CBlockIndex) :
    ThresholdConditionCache → Prop
  | empty : Filled chk tree fun _ => none
  | call {cache cache' : ThresholdConditionCache} {b : Option CBlockIndex}
      {state : ThresholdState} : Filled chk tree cache → (∀ x, b = some x → x ∈ tree) →
      chk.getStateFor cache b = .ok (state, cache') → Filled chk tree cache'

variable {tree : Set CBlockIndex}

theorem Filled.cacheOk (hperiod : 1 ≤ chk.period) (hstart : chk.beginTime ≤ chk.endTime)
    (htree : ∀ x ∈ tree, TimesOk x) (h : chk.Filled tree cache) : chk.CacheOk cache := by
  induction h with
  | empty =>
    intro key state hstate
    cases hstate
  | call _ hb hcall ih =>
    obtain ⟨cache₁, hget, hok⟩ :=
      getStateFor_spec hperiod hstart ih fun x hx => htree x (hb x hx)
    cases hget.symm.trans hcall
    exact hok

/-- With any cache of earlier calls on a tree, `GetStateFor` returns the plain state, the same
    throughout a period, and `GetStateSinceHeightFor` since when. -/
theorem getStateFor_any_cache (chk : ThresholdConditionChecker) (tree : Set CBlockIndex)
    (cache : ThresholdConditionCache) (hperiod : 1 ≤ chk.period)
    (hstart : chk.beginTime ≤ chk.endTime) (htree : ∀ x ∈ tree, TimesOk x)
    (hcache : chk.Filled tree cache) :
    (∀ b : Option CBlockIndex, (∀ x, b = some x → x ∈ tree) →
      (∃ cache', chk.getStateFor cache b = .ok (chk.deploymentState b, cache')) ∧
      ∃ since cache', chk.getStateSinceHeightFor cache b = .ok (since, cache') ∧
        chk.HeldSince b since) ∧
    ∀ a ∈ tree, ∀ b ∈ tree, a ≤ b →
      (b.nHeight + 1) / chk.period = (a.nHeight + 1) / chk.period →
      chk.deploymentState (some b) = chk.deploymentState (some a) := by
  have hok := hcache.cacheOk hperiod hstart htree
  constructor
  · intro b hb
    have htimes : ∀ x, b = some x → TimesOk x := fun x hx => htree x (hb x hx)
    obtain ⟨cache', hget, _⟩ := getStateFor_spec hperiod hstart hok htimes
    exact ⟨⟨cache', hget⟩, getStateSinceHeightFor_spec hperiod hstart hok htimes⟩
  · intro a _ b _ hab hsame
    rw [deploymentState, deploymentState, plainState_of_le hab hsame]

end ThresholdConditionChecker

namespace Regtest

def shortDeployment : ThresholdConditionChecker where
  condition := fun b => b.entry.nTime == 20
  beginTime := 10
  endTime := 100
  period := 2
  threshold := 1

def startedBlock : CBlockIndex := ⟨⟨1, 20⟩, [⟨0, 5⟩]⟩

theorem startedBlock_timesOk : startedBlock.TimesOk :=
  (timesOk_genesis rfl).child rfl (by decide)

theorem shortDeployment_started :
    ∃ cache', shortDeployment.getStateFor (fun _ => none) (some startedBlock) =
      .ok (.STARTED, cache') :=
  (((shortDeployment.getStateFor_any_cache {startedBlock} (fun _ => none) (by decide) (by decide)
    (fun _ hx => hx ▸ startedBlock_timesOk) .empty).1 (some startedBlock)
    (fun _ hx => Option.some.inj hx ▸ rfl))).1

/-- Such a deployment is `ACTIVE` at genesis, by the definition `DEFINED`. -/
theorem alwaysActive_not_defined :
    (1 : Nat) ≤ shortDeployment.period ∧ (ALWAYS_ACTIVE ≤ shortDeployment.endTime) ∧
      (({ shortDeployment with beginTime := ALWAYS_ACTIVE }.getStateFor
        (fun _ => none) none).toOption.map Prod.fst) = some .ACTIVE ∧
      { shortDeployment with beginTime := ALWAYS_ACTIVE }.plainState none = .DEFINED := by
  refine ⟨?_, ?_, ?_, ?_⟩ <;> decide

end Regtest

end VBitcoin
