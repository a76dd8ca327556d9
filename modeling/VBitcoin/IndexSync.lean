import VBitcoin.GuardedRuns
import VBitcoin.Locator

/-!
**Catching up an index with the chain** (`BaseIndex::ThreadSync`, `index/base.cpp`) — with
reorganisations, the clock, an interrupt, failures and crashes as events that may come at any
point.  Three places let the index get ahead of itself or behind:

* the position is published every thirty seconds, but `Rewind` asserts that it is the local
  one;
* the periodic `Commit` records a block before `WriteBlock` is called for it;
* `Commit` of an index that has nothing yet records the tip, as `GetLocator` does with a null
  block.
-/

namespace VBitcoin

open CBlockIndex CChain

namespace CChain

def nextSyncBlock (chain : CChain) : Option CBlockIndex → Run (Option CBlockIndex)
  | none => pure chain.genesis
  | some pindexPrev =>
    match chain.next pindexPrev with
    | some pindex => pure (some pindex)
    | none =>
      match chain.findFork (some pindexPrev) with
      | none => .error (.undefined "::ChainActive().Next(nullptr)")
      | some fork => pure (chain.next fork)

end CChain

/-! ### The loop -/

def SYNC_LOCATOR_WRITE_INTERVAL : Int := 30

/-- Where the thread is, with its local `pindex`. -/
inductive SyncPoint where
  | top (pindex : Option CBlockIndex)
  | advanced (pindex : CBlockIndex)
  | timed (pindex : CBlockIndex)
  | returned
  | failed (stop : Stop)
  deriving DecidableEq

structure SyncState where
  chain : CChain
  point : SyncPoint
  best : Option CBlockIndex
  synced : Bool
  lastLocatorWriteTime : Int
  /-- `DB_BEST_BLOCK`, empty when it was not written. -/
  locator : List CBlockIndex
  written : List CBlockIndex
  deriving DecidableEq

inductive SyncEvent where
  | reorganise (tip : CBlockIndex)
  | interrupt (commits : Bool)
  /-- The critical section; `copies` is what an overriding `Rewind` does before the base one. -/
  | advance (copies commits : Bool)
  | clock (currentTime : Int) (commits : Bool)
  | writeBlock (ok : Bool)
  /-- The process dies, and starts with this active tip and block index. -/
  | restart (tip : Option CBlockIndex) (known : CBlockIndex → Bool)

namespace SyncState

def fail (s : SyncState) (stop : Stop) : SyncState := { s with point := .failed stop }

def commit (s : SyncState) (commits : Bool) : SyncState :=
  if commits then { s with locator := s.chain.getLocator s.best } else s

/-- `BaseIndex::Init` and the start of `ThreadSync`, on what is in the database. -/
def init (chain : CChain) (known : CBlockIndex → Bool) (locator written : List CBlockIndex) :
    SyncState :=
  let best := if locator.isEmpty then none else chain.findForkInGlobalIndex known locator
  let synced := best == chain.tip
  { chain, best, synced, locator, written
    point := if synced then .returned else .top best
    lastLocatorWriteTime := 0 }

/-- `BaseIndex::Rewind`; the thread goes on at `pindexNext` or returns. -/
def rewind (s : SyncState) (commits : Bool) (currentTip newTip : Option CBlockIndex)
    (pindexNext : CBlockIndex) : SyncState :=
  if currentTip ≠ s.best then
    s.fail (.assertion "current_tip == m_best_block_index")
  else
    match currentTip, newTip with
    | some tip, some new =>
      if tip.getAncestor new.nHeight ≠ some new then
        s.fail (.assertion "current_tip->GetAncestor(new_tip->nHeight) == new_tip")
      else if commits then
        { { s with best := some new }.commit true with point := .advanced pindexNext }
      else { s with point := .returned }
    | _, _ => s.fail (.undefined "current_tip->GetAncestor(new_tip->nHeight)")

def interrupt (s : SyncState) (commits : Bool) (pindex : Option CBlockIndex) : SyncState :=
  { { s with best := pindex }.commit commits with point := .returned }

def advance (s : SyncState) (copies commits : Bool) (pindex : Option CBlockIndex) : SyncState :=
  match s.chain.nextSyncBlock pindex with
  | .error stop => s.fail stop
  | .ok none => { { s with best := pindex, synced := true }.commit commits with point := .returned }
  | .ok (some pindexNext) =>
    if pindexNext.pprev = pindex then { s with point := .advanced pindexNext }
    else if copies then s.rewind commits pindex pindexNext.pprev pindexNext
    else { s with point := .returned }

def tick (s : SyncState) (currentTime : Int) (commits : Bool) (pindex : CBlockIndex) : SyncState :=
  let s :=
    if s.lastLocatorWriteTime + SYNC_LOCATOR_WRITE_INTERVAL < currentTime then
      { s with best := some pindex, lastLocatorWriteTime := currentTime }.commit commits
    else s
  { s with point := .timed pindex }

def step (event : SyncEvent) (s : SyncState) : Option SyncState :=
  match event, s.point with
  | .reorganise tip, _ => some { s with chain := s.chain.setTip (some tip) }
  | .restart tip known, _ => some (init (CChain.setTip {} tip) known s.locator s.written)
  | .interrupt commits, .top pindex => some (s.interrupt commits pindex)
  | .advance copies commits, .top pindex => some (s.advance copies commits pindex)
  | .clock currentTime commits, .advanced pindex => some (s.tick currentTime commits pindex)
  | .writeBlock true, .timed pindex =>
    some { s with written := pindex :: s.written, point := .top (some pindex) }
  | .writeBlock false, .timed _ => some { s with point := .returned }
  | _, _ => none

end SyncState

/-! ### What a sound index is -/

/-- `WriteBlock` has returned for the block and all its ancestors. -/
def Indexed (written : List CBlockIndex) (pindex : CBlockIndex) : Prop :=
  ∀ a ≤ pindex, a ∈ written

/-- The thread has not failed and left no block below its position out. -/
def SyncPoint.NoneMissing (written : List CBlockIndex) : SyncPoint → Prop
  | .top pindex => ∀ p, pindex = some p → Indexed written p
  | .advanced pindex => ∀ a < pindex, a ∈ written
  | .timed pindex => ∀ a < pindex, a ∈ written
  | .returned => True
  | .failed _ => False

/-- The recorded best block is indexed, and so is all below the thread. -/
structure SyncState.Good (s : SyncState) : Prop where
  recorded : ∀ p, s.locator.head? = some p → Indexed s.written p
  noneMissing : s.point.NoneMissing s.written

def SyncEvent.Legal (genesis : CBlockIndex) : SyncEvent → Prop
  | .reorganise tip => genesis ≤ tip
  | .restart tip _ => ∀ t, tip = some t → genesis ≤ t
  | _ => True

/-- The loop's position, a block written before its commit. -/
def SyncState.Meets (s : SyncState) : SyncEvent → Prop
  | .advance copies _ => ∀ p t, s.point = .top (some p) → s.chain.tip = some t → copies = true →
      p ≤ t ∨ t ≤ p ∨ s.best = some p
  | .clock currentTime commits => ∀ p, s.point = .advanced p → commits = true →
      s.lastLocatorWriteTime + SYNC_LOCATOR_WRITE_INTERVAL < currentTime → p ∈ s.written
  | .interrupt commits => ∀ t, s.point = .top none → s.chain.tip = some t → commits = true →
      Indexed s.written t
  | _ => True

namespace CChain

variable {chain : CChain} {t p : CBlockIndex}

/-! ### The next block to index -/

theorem exists_child_of_lt (h : p < t) : ∃ c, c ≤ t ∧ c.pprev = some p := by
  induction t using induction_pprev with
  | step t ih =>
    obtain ⟨q, hq⟩ := exists_pprev_of_lt h
    rcases (le_pprev_of_lt h hq).eq_or_lt with rfl | hlt
    · exact ⟨t, le_refl t, hq⟩
    · obtain ⟨c, hcq, hc⟩ := ih q hq hlt
      exact ⟨c, hcq.trans (pprev_le hq), hc⟩

theorem next_eq_none (h : IsBranch chain.vChain (some t)) (hp : ¬ p < t) : chain.next p = none := by
  rw [Option.eq_none_iff_forall_ne_some]
  intro c hnext
  obtain ⟨hprev, _, ⟨⟩, hct⟩ := (next_eq_some_iff h).mp hnext
  exact hp ((pprev_lt hprev).trans_le hct)

/-- Nothing, the child, or off the branch the fork point's child. -/
theorem nextSyncBlock_cases (h : IsBranch chain.vChain (some t)) (hcommon : ∃ a, a ≤ p ∧ a ≤ t) :
    (t ≤ p ∧ chain.nextSyncBlock (some p) = .ok none) ∨
    (p ≤ t ∧ ∃ c, c ≤ t ∧ c.pprev = some p ∧ chain.nextSyncBlock (some p) = .ok (some c)) ∨
    (¬ p ≤ t ∧ ¬ t ≤ p ∧ ∃ f c, f < p ∧ c ≤ t ∧ c.pprev = some f ∧
      chain.nextSyncBlock (some p) = .ok (some c)) := by
  obtain ⟨f, hfork, hfp, hft, hmax⟩ := findFork_spec h p hcommon
  by_cases htp : t ≤ p
  · refine .inl ⟨htp, ?_⟩
    obtain rfl : f = t := le_antisymm hft (hmax t htp (le_refl t))
    simp only [nextSyncBlock, next_eq_none h htp.not_gt, hfork, next_eq_none h (lt_irrefl f)]
    rfl
  by_cases hpt : p ≤ t
  · refine .inr (.inl ⟨hpt, ?_⟩)
    obtain ⟨c, hct, hprev⟩ := exists_child_of_lt (lt_of_le_not_ge hpt htp)
    refine ⟨c, hct, hprev, ?_⟩
    simp only [nextSyncBlock, (next_eq_some_iff h).mpr ⟨hprev, t, rfl, hct⟩]
    rfl
  · refine .inr (.inr ⟨hpt, htp, ?_⟩)
    have hfp' : f < p := lt_of_le_of_ne hfp fun heq => hpt (heq ▸ hft)
    have hft' : f < t := lt_of_le_of_ne hft fun heq => htp (heq ▸ hfp)
    obtain ⟨c, hct, hprev⟩ := exists_child_of_lt hft'
    refine ⟨f, c, hfp', hct, hprev, ?_⟩
    simp only [nextSyncBlock, next_eq_none h fun hlt => hpt hlt.le, hfork,
      (next_eq_some_iff h).mpr ⟨hprev, t, rfl, hct⟩]
    rfl

end CChain

/-! ### The invariant -/

variable {p : CBlockIndex}

variable {q : CBlockIndex}

theorem Indexed.mono {written : List CBlockIndex} (h : Indexed written p)
    (hqp : q ≤ p) : Indexed written q :=
  fun a ha => h a (ha.trans hqp)

/-- The block comes from the genesis block and is indexed. -/
structure Secured (genesis : CBlockIndex) (written : List CBlockIndex) (p : CBlockIndex) :
    Prop where
  rooted : genesis ≤ p
  indexed : Indexed written p

variable {genesis : CBlockIndex} {chain : CChain} {written : List CBlockIndex}
  (hgenesis : genesis.pprev = none)

include hgenesis in
theorem Secured.mono (h : Secured genesis written p) (hqp : q ≤ p) :
    Secured genesis written q := by
  refine ⟨le_of_nHeight_le h.rooted hqp ?_, h.indexed.mono hqp⟩
  rw [nHeight_of_pprev_none hgenesis]
  exact Nat.zero_le _

include hgenesis in
theorem secured_getLocator (h : IsBranch chain.vChain chain.tip) (hp : Secured genesis written p) :
    ∀ q ∈ chain.getLocator (some p), Secured genesis written q := by
  intro q hq
  exact hp.mono hgenesis (le_of_mem_getLocator h hq)

/-- Indexed at the start of the loop, all below until `WriteBlock`. -/
def SyncPoint.Secured (genesis : CBlockIndex) (written : List CBlockIndex) : SyncPoint → Prop
  | .top pindex => ∀ p, pindex = some p → VBitcoin.Secured genesis written p
  | .advanced pindex => genesis ≤ pindex ∧ ∀ a < pindex, a ∈ written
  | .timed pindex => genesis ≤ pindex ∧ ∀ a < pindex, a ∈ written
  | .returned => True
  | .failed _ => False

structure SyncState.Inv (genesis : CBlockIndex) (s : SyncState) : Prop where
  branch : CChain.IsBranch s.chain.vChain s.chain.tip
  rooted : ∀ t, s.chain.tip = some t → genesis ≤ t
  running : s.point = .returned ∨ ∃ t, s.chain.tip = some t
  locator : ∀ p ∈ s.locator, Secured genesis s.written p
  point : s.point.Secured genesis s.written

/-! ### Starting -/

theorem secured_findForkInGlobalIndex (h : IsBranch chain.vChain chain.tip)
    (hrooted : ∀ t, chain.tip = some t → genesis ≤ t) (hgenesis : genesis.pprev = none)
    {known : CBlockIndex → Bool} (hwritten : Indexed written genesis) {b : CBlockIndex} :
    ∀ {locator : List CBlockIndex}, (∀ p ∈ locator, Secured genesis written p) →
      chain.findForkInGlobalIndex known locator = some b →
      Secured genesis written b ∧ ∃ t, chain.tip = some t
  | [], _, hfork => by
    obtain ⟨hheight, t, htip, hbt⟩ := (operatorAt_eq_some_iff h 0).mp hfork
    obtain rfl : b = genesis :=
      eq_of_nHeight_eq hbt (hrooted t htip) (hheight.trans (nHeight_of_pprev_none hgenesis).symm)
    exact ⟨⟨le_refl b, hwritten⟩, t, htip⟩
  | pindex :: vHave, hlocator, hfork => by
    have hpindex := hlocator pindex List.mem_cons_self
    simp only [findForkInGlobalIndex, Bool.and_eq_true, beq_iff_eq] at hfork
    split at hfork
    · rename_i hin
      obtain rfl := Option.some.inj hfork
      obtain ⟨t, htip, -⟩ := (contains_iff h).mp hin.2
      exact ⟨hpindex, t, htip⟩
    · split at hfork
      · -- the tip is below the block, as after a crash that lost the last blocks
        rename_i hbelow
        refine ⟨hpindex.mono hgenesis ?_, b, hfork⟩
        rw [hfork] at h hbelow
        exact (getAncestorAt_height h).mp hbelow.2
      · exact secured_findForkInGlobalIndex h hrooted hgenesis hwritten
          (List.forall_mem_cons.mp hlocator).2 hfork

namespace SyncState

variable {s s' : SyncState}

variable {known : CBlockIndex → Bool} {locator : List CBlockIndex} {point : SyncPoint}
  {pindex : Option CBlockIndex} {event : SyncEvent}

theorem inv_init (h : IsBranch chain.vChain chain.tip)
    (hrooted : ∀ t, chain.tip = some t → genesis ≤ t) (hgenesis : genesis.pprev = none)
    (hlocator : ∀ p ∈ locator, Secured genesis written p) :
    Inv genesis (init chain known locator written) := by
  have hbest : ∀ b, (init chain known locator written).best = some b →
      Secured genesis written b ∧ ∃ t, chain.tip = some t := by
    intro b hb
    cases locator with
    | nil => cases hb
    | cons p rest =>
      have hp := hlocator p List.mem_cons_self
      exact secured_findForkInGlobalIndex h hrooted hgenesis (hp.indexed.mono hp.rooted)
        hlocator hb
  have hpoint : (init chain known locator written).point =
      if (init chain known locator written).best == chain.tip then .returned
      else .top (init chain known locator written).best := rfl
  refine ⟨h, hrooted, ?_, hlocator, ?_⟩
  · rw [hpoint]
    split
    · exact .inl rfl
    · rename_i hne
      refine .inr ?_
      -- with no tip there is no best block either, and the two would be equal
      cases htip : chain.tip with
      | some t => exact ⟨t, htip⟩
      | none =>
        cases hb : (init chain known locator written).best with
        | none => simp [hb, htip] at hne
        | some b =>
          obtain ⟨-, t, htip'⟩ := hbest b hb
          rw [htip] at htip'
          cases htip'
  · rw [hpoint]
    split
    · trivial
    · exact fun p hp => (hbest p hp).1

/-! ### One step -/

variable {p : CBlockIndex} {commits : Bool}

theorem Inv.commit (hs : Inv genesis s) (hgenesis : genesis.pprev = none) (hbest : s.best = some p)
    (hp : commits = true → Secured genesis s.written p) (hpoint : point.Secured genesis s.written)
    (hrunning : point = .returned ∨ ∃ t, s.chain.tip = some t) :
    Inv genesis { s.commit commits with point := point } := by
  cases commits with
  | false => exact ⟨hs.branch, hs.rooted, hrunning, hs.locator, hpoint⟩
  | true =>
    refine ⟨hs.branch, hs.rooted, hrunning, ?_, hpoint⟩
    have hlocator := secured_getLocator hgenesis hs.branch (hp rfl)
    rw [← hbest] at hlocator
    exact hlocator

theorem Inv.withPoint (hs : Inv genesis s) (hpoint : point.Secured genesis s.written)
    (hrunning : point = .returned ∨ ∃ t, s.chain.tip = some t) :
    Inv genesis { s with point := point } :=
  ⟨hs.branch, hs.rooted, hrunning, hs.locator, hpoint⟩

theorem Inv.returned (hs : Inv genesis s) : Inv genesis { s with point := .returned } :=
  hs.withPoint trivial (.inl rfl)

theorem Inv.withBest (hs : Inv genesis s) (best : Option CBlockIndex) (synced : Bool)
    (lastLocatorWriteTime : Int) :
    Inv genesis { s with best, synced, lastLocatorWriteTime } :=
  ⟨hs.branch, hs.rooted, hs.running, hs.locator, hs.point⟩

theorem rewind_eq {f c : CBlockIndex} (hbest : s.best = some p) (hfp : f ≤ p) :
    s.rewind commits (some p) (some f) c =
      if commits then { { s with best := some f }.commit true with point := .advanced c }
      else { s with point := .returned } := by
  rw [rewind, if_neg (not_not.mpr hbest.symm)]
  exact if_neg (not_not.mpr (getAncestor_eq_some_iff.mpr hfp))

theorem Inv.advance (hs : Inv genesis s) (hgenesis : genesis.pprev = none) {copies : Bool}
    (hpoint : s.point = .top pindex) (hmeets : s.Meets (.advance copies commits)) :
    Inv genesis (s.advance copies commits pindex) := by
  obtain ⟨t, htip⟩ := hs.running.resolve_left (by simp [hpoint])
  have hbranch := hs.branch
  rw [htip] at hbranch
  have hroot := hs.rooted t htip
  have hsecured := hs.point
  rw [hpoint] at hsecured
  cases pindex with
  | none =>
    have hnext : s.chain.nextSyncBlock none = .ok (some genesis) :=
      congrArg Except.ok (genesis_eq hbranch hgenesis hroot)
    simp only [SyncState.advance, hnext, hgenesis, if_true]
    refine hs.withPoint ⟨le_refl genesis, fun a ha => ?_⟩ (.inr ⟨t, htip⟩)
    exact absurd (eq_of_le_of_pprev_none ha.le hgenesis) ha.ne
  | some p =>
    have hp : Secured genesis s.written p := hsecured p rfl
    rcases nextSyncBlock_cases hbranch ⟨genesis, hp.rooted, hroot⟩ with
      ⟨-, hnext⟩ | ⟨-, c, hct, hprev, hnext⟩ | ⟨hpt, htp, f, c, hfp, hct, hprev, hnext⟩
    · simp only [SyncState.advance, hnext]
      exact (hs.withBest (some p) true s.lastLocatorWriteTime).commit hgenesis rfl
        (fun _ => hp) trivial (.inl rfl)
    · simp only [SyncState.advance, hnext, hprev, if_true]
      refine hs.withPoint ⟨hp.rooted.trans (pprev_le hprev), fun a ha => ?_⟩ (.inr ⟨t, htip⟩)
      exact hp.indexed a (le_pprev_of_lt ha hprev)
    · have hne : some f ≠ some p := fun heq => hfp.ne (Option.some.inj heq)
      simp only [SyncState.advance, hnext, hprev, if_neg hne]
      cases copies with
      | false => exact hs.returned
      | true =>
        have hbest : s.best = some p := by
          rcases hmeets p t hpoint htip rfl with h | h | h
          · exact absurd h hpt
          · exact absurd h htp
          · exact h
        have hf : Secured genesis s.written f := hp.mono hgenesis hfp.le
        rw [if_pos rfl, rewind_eq hbest hfp.le]
        cases commits with
        | false => exact hs.returned
        | true =>
          apply (hs.withBest (some f) s.synced s.lastLocatorWriteTime).commit hgenesis rfl
            (fun _ => hf)
          · exact ⟨hf.rooted.trans (pprev_le hprev), fun a ha =>
              hf.indexed a (le_pprev_of_lt ha hprev)⟩
          · exact .inr ⟨t, htip⟩

/-- The chain has left a position that was not published. -/
theorem Inv.advance_fails (hs : Inv genesis s) {t : CBlockIndex}
    (hpoint : s.point = .top (some p)) (htip : s.chain.tip = some t)
    (hpt : ¬ p ≤ t) (htp : ¬ t ≤ p) (hbest : s.best ≠ some p) :
    s.advance true commits (some p) = s.fail (.assertion "current_tip == m_best_block_index") := by
  have hbranch := hs.branch
  rw [htip] at hbranch
  have hsecured := hs.point
  rw [hpoint] at hsecured
  have hcommon : ∃ a, a ≤ p ∧ a ≤ t := ⟨genesis, (hsecured p rfl).rooted, hs.rooted t htip⟩
  rcases nextSyncBlock_cases hbranch hcommon with
    ⟨h, -⟩ | ⟨h, -⟩ | ⟨-, -, f, c, hfp, -, hprev, hnext⟩
  · exact absurd h htp
  · exact absurd h hpt
  · have hne : some f ≠ some p := fun heq => hfp.ne (Option.some.inj heq)
    simp only [SyncState.advance, hnext, hprev, if_neg hne, if_true, rewind,
      if_pos (Ne.symm hbest)]

theorem Inv.tick (hs : Inv genesis s) (hgenesis : genesis.pprev = none) {currentTime : Int}
    (hpoint : s.point = .advanced p) (hmeets : s.Meets (.clock currentTime commits)) :
    Inv genesis (s.tick currentTime commits p) := by
  have hsecured := hs.point
  rw [hpoint] at hsecured
  have hrunning : SyncPoint.timed p = .returned ∨ ∃ t, s.chain.tip = some t :=
    .inr (hs.running.resolve_left (by simp [hpoint]))
  unfold SyncState.tick
  split
  · rename_i hdue
    refine (hs.withBest (some p) s.synced currentTime).commit hgenesis rfl ?_ hsecured hrunning
    refine fun hcommits => ⟨hsecured.1, fun a ha => ?_⟩
    rcases ha.eq_or_lt with rfl | hlt
    · exact hmeets a hpoint hcommits hdue
    · exact hsecured.2 a hlt
  · exact hs.withPoint hsecured hrunning

theorem inv_start (hgenesis : genesis.pprev = none) {tip : Option CBlockIndex}
    (htip : ∀ t, tip = some t → genesis ≤ t) (hlocator : ∀ p ∈ locator, Secured genesis written p) :
    Inv genesis (init (CChain.setTip {} tip) known locator written) := by
  obtain ⟨hset, hbranch⟩ := isBranch_empty.tip_setTip tip
  refine inv_init hbranch ?_ hgenesis hlocator
  rw [hset]
  exact htip

theorem Inv.interrupt (hs : Inv genesis s) (hgenesis : genesis.pprev = none)
    (hpoint : s.point = .top pindex) (hmeets : s.Meets (.interrupt commits)) :
    Inv genesis (s.interrupt commits pindex) := by
  have hsecured := hs.point
  rw [hpoint] at hsecured
  cases pindex with
  | some p =>
    exact (hs.withBest (some p) s.synced s.lastLocatorWriteTime).commit hgenesis rfl
      (fun _ => hsecured p rfl) trivial (.inl rfl)
  | none =>
    cases commits with
    | false => exact (hs.withBest none s.synced s.lastLocatorWriteTime).returned
    | true =>
      refine ⟨hs.branch, hs.rooted, .inl rfl, ?_, trivial⟩
      obtain ⟨t, htip⟩ := hs.running.resolve_left (by simp [hpoint])
      -- what is recorded is the locator of the tip
      have hlocator := secured_getLocator hgenesis hs.branch
        ⟨hs.rooted t htip, hmeets t hpoint htip rfl⟩
      rw [← getLocator_none htip] at hlocator
      exact hlocator

theorem Inv.writeBlock (hs : Inv genesis s) (hpoint : s.point = .timed p) :
    Inv genesis { s with written := p :: s.written, point := .top (some p) } := by
  have hsecured := hs.point
  rw [hpoint] at hsecured
  have hmono : ∀ q, Secured genesis s.written q → Secured genesis (p :: s.written) q :=
    fun q hq => ⟨hq.rooted, fun a ha => List.mem_cons_of_mem p (hq.indexed a ha)⟩
  refine ⟨hs.branch, hs.rooted, .inr (hs.running.resolve_left (by simp [hpoint])),
    fun q hq => hmono q (hs.locator q hq), ?_⟩
  rintro q hq
  obtain rfl := Option.some.inj hq
  refine ⟨hsecured.1, fun a ha => ?_⟩
  rcases ha.eq_or_lt with rfl | hlt
  · exact List.mem_cons_self
  · exact List.mem_cons_of_mem p (hsecured.2 a hlt)

section StepEquations

variable {pindex : Option CBlockIndex} {p : CBlockIndex} {copies commits : Bool} {currentTime : Int}

theorem step_interrupt (h : s.point = .top pindex) :
    SyncState.step (.interrupt commits) s = some (s.interrupt commits pindex) := by
  simp only [SyncState.step, h]

theorem step_advance (h : s.point = .top pindex) :
    SyncState.step (.advance copies commits) s = some (s.advance copies commits pindex) := by
  simp only [SyncState.step, h]

theorem step_tick (h : s.point = .advanced p) :
    SyncState.step (.clock currentTime commits) s = some (s.tick currentTime commits p) := by
  simp only [SyncState.step, h]

end StepEquations

theorem Inv.step (hs : Inv genesis s) (hgenesis : genesis.pprev = none)
    (hlegal : event.Legal genesis) (hmeets : s.Meets event)
    (hstep : SyncState.step event s = some s') : Inv genesis s' := by
  cases event with
  | reorganise tip =>
    obtain rfl := Option.some.inj hstep
    obtain ⟨hset, hbranch⟩ := hs.branch.tip_setTip (some tip)
    refine ⟨hbranch, ?_, .inr ⟨tip, hset⟩, hs.locator, hs.point⟩
    intro t ht
    obtain rfl := Option.some.inj (hset.symm.trans ht)
    exact hlegal
  | restart tip known =>
    obtain rfl := Option.some.inj hstep
    exact inv_start hgenesis hlegal hs.locator
  | interrupt commits =>
    cases hpoint : s.point with
    | top pindex =>
      obtain rfl := Option.some.inj ((step_interrupt hpoint).symm.trans hstep)
      exact hs.interrupt hgenesis hpoint hmeets
    | _ => simp [SyncState.step, hpoint] at hstep
  | advance copies commits =>
    cases hpoint : s.point with
    | top pindex =>
      obtain rfl := Option.some.inj ((step_advance hpoint).symm.trans hstep)
      exact hs.advance hgenesis hpoint hmeets
    | _ => simp [SyncState.step, hpoint] at hstep
  | clock currentTime commits =>
    cases hpoint : s.point with
    | advanced p =>
      obtain rfl := Option.some.inj ((step_tick hpoint).symm.trans hstep)
      exact hs.tick hgenesis hpoint hmeets
    | _ => simp [SyncState.step, hpoint] at hstep
  | writeBlock ok =>
    cases hpoint : s.point with
    | timed p =>
      cases ok with
      | true =>
        simp only [SyncState.step, hpoint, Option.some.injEq] at hstep
        subst hstep
        exact hs.writeBlock hpoint
      | false =>
        simp only [SyncState.step, hpoint, Option.some.injEq] at hstep
        subst hstep
        exact hs.returned
    | _ => simp [SyncState.step, hpoint] at hstep

theorem Inv.good (hs : Inv genesis s) : s.Good := by
  constructor
  · intro p hp
    exact (hs.locator p (List.mem_of_head? hp)).indexed
  · have hsecured := hs.point
    cases hpoint : s.point with
    | top pindex =>
      rw [hpoint] at hsecured
      exact fun p hp => (hsecured p hp).indexed
    | advanced p => rw [hpoint] at hsecured; exact hsecured.2
    | timed p => rw [hpoint] at hsecured; exact hsecured.2
    | returned => trivial
    | failed stop => rw [hpoint] at hsecured; exact hsecured

theorem not_good_of_recorded (hbranch : IsBranch s.chain.vChain s.chain.tip)
    (hlocator : s.locator = s.chain.getLocator (some p)) (hp : ¬ Indexed s.written p) :
    ¬ s.Good := by
  intro hgood
  obtain ⟨rest, hrest, -⟩ := getLocator_spec hbranch p
  exact hp (hgood.recorded p (by rw [hlocator, hrest]; rfl))

theorem Inv.step_bad (hs : Inv genesis s) (hviolates : ¬ s.Meets event) :
    ∃ s', SyncState.step event s = some s' ∧ ¬ s'.Good := by
  cases event with
  | reorganise tip => exact absurd trivial hviolates
  | restart tip known => exact absurd trivial hviolates
  | writeBlock ok => exact absurd trivial hviolates
  | interrupt commits =>
    simp only [Meets, not_forall] at hviolates
    obtain ⟨t, hpoint, htip, hcommits, hbad⟩ := hviolates
    subst hcommits
    refine ⟨_, step_interrupt hpoint, ?_⟩
    exact not_good_of_recorded hs.branch (getLocator_none htip) hbad
  | advance copies commits =>
    simp only [Meets, not_forall, not_or] at hviolates
    obtain ⟨p, t, hpoint, htip, hcopies, hpt, htp, hbest⟩ := hviolates
    subst hcopies
    refine ⟨_, step_advance hpoint, ?_⟩
    rw [hs.advance_fails hpoint htip hpt htp hbest]
    exact fun hgood => hgood.noneMissing
  | clock currentTime commits =>
    simp only [Meets, not_forall] at hviolates
    obtain ⟨p, hpoint, hcommits, hdue, hbad⟩ := hviolates
    subst hcommits
    refine ⟨_, step_tick hpoint, ?_⟩
    rw [SyncState.tick, if_pos hdue]
    exact not_good_of_recorded hs.branch rfl fun h => hbad (h p (le_refl p))

end SyncState

/-! ### Whole runs -/

open GuardedRuns SyncState

namespace Regtest

def freshIndex (tip : CBlockIndex) : SyncState :=
  init (CChain.setTip {} (some tip)) (fun _ => true) [] []

end Regtest

end VBitcoin
