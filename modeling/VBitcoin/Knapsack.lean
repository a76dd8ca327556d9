import VBitcoin.Primitives
import VBitcoin.StdSort

/-!
**The fallback of coin selection** (`wallet/coinselection.cpp`) — `KnapsackSolver` and its
randomised search `ApproximateBestSubset`, over arbitrary draws.  The search keeps a best
subset that reaches its target, whatever is drawn (`Reaches`), and it is run for the target
and for the target with change.
-/

namespace VBitcoin

open List

def MIN_CHANGE : Int := COIN / 100

/-- `OutputGroup`; its coins are told apart by their outpoints. -/
structure OutputGroup where
  m_outputs : List COutPoint
  m_value : Int
  effective_value : Int
  deriving DecidableEq

/-! ### The randomised search -/

structure SubsetSearch where
  vfIncluded : List Bool := []
  nTotal : Int := 0
  fReachedTarget : Bool := false
  vfBest : List Bool
  nBest : Int

namespace SubsetSearch

/-- The body of the inner loop, for a group that is to be included. -/
def includeGroup (nTargetValue : Int) (group : OutputGroup) (i : Nat) (s : SubsetSearch) :
    SubsetSearch :=
  let nTotal := s.nTotal + group.m_value
  let vfIncluded := s.vfIncluded.set i true
  if nTargetValue ≤ nTotal then
    let s := if nTotal < s.nBest then { s with nBest := nTotal, vfBest := vfIncluded } else s
    { s with
      fReachedTarget := true
      nTotal := nTotal - group.m_value
      vfIncluded := vfIncluded.set i false }
  else { s with nTotal, vfIncluded }

/-- From index `i` on; `wanted` sees whether a group is included. -/
def pass (nTargetValue : Int) (wanted : Nat → Bool → Bool) :
    List OutputGroup → Nat → SubsetSearch → SubsetSearch
  | [], _, s => s
  | group :: rest, i, s =>
    pass nTargetValue wanted rest (i + 1)
      (if wanted i (s.vfIncluded.getD i false) then s.includeGroup nTargetValue group i else s)

variable (groups : List OutputGroup) (nTargetValue : Int)

/-- A random pass, and a second one when it did not reach the target. -/
def repetition (randbool : Nat → Bool) (s : SubsetSearch) : SubsetSearch :=
  let s := pass nTargetValue (fun i _ => randbool i) groups 0
    { s with vfIncluded := replicate groups.length false, nTotal := 0, fReachedTarget := false }
  if s.fReachedTarget then s
  else pass nTargetValue (fun _ included => !included) groups 0 s

def repetitions (randbool : Nat → Nat → Bool) : Nat → Nat → SubsetSearch → SubsetSearch
  | 0, _, s => s
  | left + 1, nRep, s =>
    if s.nBest = nTargetValue then s
    else
      repetitions randbool left (nRep + 1) (repetition groups nTargetValue (randbool nRep) s)

end SubsetSearch

def approximateBestSubset (groups : List OutputGroup) (nTotalLower nTargetValue : Int)
    (randbool : Nat → Nat → Bool) : SubsetSearch :=
  SubsetSearch.repetitions groups nTargetValue randbool 1000 0
    { vfBest := replicate groups.length true, nBest := nTotalLower }

/-! ### The solver -/

def descending (a b : OutputGroup) : Bool := a.effective_value > b.effective_value

/-- Left open: the shuffle, ties of the sort, the draws of the searches. -/
structure KnapsackChoices where
  shuffle : List OutputGroup → List OutputGroup
  shuffle_perm : ∀ groups, (shuffle groups).Perm groups
  std : StdSort OutputGroup
  randbool : Bool → Nat → Nat → Bool

structure CoinSelection where
  setCoinsRet : List COutPoint
  nValueRet : Int
  deriving DecidableEq

def totalValue (groups : List OutputGroup) : Int := (groups.map OutputGroup.m_value).sum

/-- The coins of some groups are inserted and their values added. -/
def selectGroups (groups : List OutputGroup) : CoinSelection where
  setCoinsRet := groups.flatMap OutputGroup.m_outputs
  nValueRet := totalValue groups

def flagged (groups : List OutputGroup) (flags : List Bool) : List OutputGroup :=
  ((groups.zip flags).filter Prod.snd).map Prod.fst

structure SortedGroups where
  lowest_larger : Option OutputGroup := none
  applicable_groups : List OutputGroup := []
  nTotalLower : Int := 0

/-- The first loop; it ends at a group of exactly the target. -/
def sortGroups (nTargetValue : Int) :
    List OutputGroup → SortedGroups → Except OutputGroup SortedGroups
  | [], s => .ok s
  | group :: rest, s =>
    if group.m_value = nTargetValue then .error group
    else if group.m_value < nTargetValue + MIN_CHANGE then
      sortGroups nTargetValue rest { s with
        applicable_groups := s.applicable_groups ++ [group]
        nTotalLower := s.nTotalLower + group.m_value }
    else if s.lowest_larger.all fun larger => group.m_value < larger.m_value then
      sortGroups nTargetValue rest { s with lowest_larger := some group }
    else sortGroups nTargetValue rest s

def searchSubset (choices : KnapsackChoices) (nTargetValue nTotalLower : Int)
    (groups : List OutputGroup) : SubsetSearch :=
  let best := approximateBestSubset groups nTotalLower nTargetValue (choices.randbool false)
  if best.nBest ≠ nTargetValue ∧ nTargetValue + MIN_CHANGE ≤ nTotalLower then
    approximateBestSubset groups nTotalLower (nTargetValue + MIN_CHANGE) (choices.randbool true)
  else best

/-- `KnapsackSolver`; nothing when it returns false. -/
def knapsackSolver (choices : KnapsackChoices) (nTargetValue : Int) (groups : List OutputGroup) :
    Option CoinSelection :=
  match sortGroups nTargetValue (choices.shuffle groups) {} with
  | .error group => some (selectGroups [group])
  | .ok s =>
    if s.nTotalLower = nTargetValue then some (selectGroups s.applicable_groups)
    else if s.nTotalLower < nTargetValue then
      s.lowest_larger.map fun larger => selectGroups [larger]
    else
      let sorted := choices.std.sort descending s.applicable_groups
      let best := searchSubset choices nTargetValue s.nTotalLower sorted
      let subset := selectGroups (flagged sorted best.vfBest)
      match s.lowest_larger with
      | none => some subset
      | some larger =>
        if (best.nBest ≠ nTargetValue ∧ best.nBest < nTargetValue + MIN_CHANGE) ∨
            larger.m_value ≤ best.nBest then some (selectGroups [larger])
        else some subset

/-! ### What the search keeps -/

section Search

variable {groups : List OutputGroup} {target : Int}

theorem totalValue_flagged_cons (group : OutputGroup) (rest : List OutputGroup) (flag : Bool)
    (flags : List Bool) : totalValue (flagged (group :: rest) (flag :: flags)) =
      (if flag then group.m_value else 0) + totalValue (flagged rest flags) := by
  cases flag <;> simp [totalValue, flagged]

theorem totalValue_flagged_replicate_false (groups : List OutputGroup) :
    totalValue (flagged groups (replicate groups.length false)) = 0 := by
  induction groups with
  | nil => rfl
  | cons group rest ih => rw [length_cons, replicate_succ, totalValue_flagged_cons, ih]; rfl

theorem flagged_replicate_true (groups : List OutputGroup) :
    flagged groups (replicate groups.length true) = groups := by
  induction groups with
  | nil => rfl
  | cons group rest ih => simpa [flagged, replicate_succ] using ih

theorem totalValue_flagged_set : ∀ {groups : List OutputGroup} {flags : List Bool} {i : Nat}
    {group : OutputGroup}, groups[i]? = some group → flags[i]? = some false →
      totalValue (flagged groups (flags.set i true)) =
        totalValue (flagged groups flags) + group.m_value
  | _ :: _, _ :: _, 0, _, hgroup, hflag => by
    obtain rfl := Option.some.inj hgroup
    obtain rfl := Option.some.inj hflag
    rw [set_cons_zero, totalValue_flagged_cons, totalValue_flagged_cons]
    simp [add_comm]
  | _ :: groups, _ :: flags, i + 1, group, hgroup, hflag => by
    rw [set_cons_succ, totalValue_flagged_cons, totalValue_flagged_cons,
      @totalValue_flagged_set groups flags i group hgroup hflag, add_assoc]

theorem flagged_sublist {flags : List Bool} (h : flags.length = groups.length) :
    (flagged groups flags).Sublist groups := by
  have hsub := (filter_sublist (p := Prod.snd) (l := groups.zip flags)).map Prod.fst
  rwa [map_fst_zip h.ge] at hsub

/-- The best subset reaches the target, and the sums are right. -/
structure SubsetSearch.Reaches (groups : List OutputGroup) (target : Int)
    (s : SubsetSearch) : Prop where
  best_length : s.vfBest.length = groups.length
  best_value : s.nBest = totalValue (flagged groups s.vfBest)
  target_le : target ≤ s.nBest

/-- In the middle of a pass: the groups that may still be included are not. -/
structure SubsetSearch.Passing (groups : List OutputGroup) (target : Int)
    (wanted : Nat → Bool → Bool) (i : Nat) (s : SubsetSearch) : Prop where
  reaches : s.Reaches groups target
  length : s.vfIncluded.length = groups.length
  total : s.nTotal = totalValue (flagged groups s.vfIncluded)
  free : ∀ j ≥ i, j < groups.length → wanted j (s.vfIncluded.getD j false) = true →
    s.vfIncluded.getD j false = false

namespace SubsetSearch

variable {wanted : Nat → Bool → Bool} {s : SubsetSearch} {i : Nat}

theorem Passing.includeGroup {group : OutputGroup}
    (h : s.Passing groups target wanted i) (hgroup : groups[i]? = some group)
    (hwanted : wanted i (s.vfIncluded.getD i false) = true) :
    (s.includeGroup target group i).Passing groups target wanted (i + 1) := by
  have hi : i < groups.length := (List.getElem?_eq_some_iff.mp hgroup).1
  have hlt : i < s.vfIncluded.length := h.length ▸ hi
  have hfree := h.free i le_rfl hi hwanted
  rw [getD_eq_getElem?_getD, getElem?_eq_getElem hlt, Option.getD_some] at hfree
  have hflag : s.vfIncluded[i]? = some false := by rw [getElem?_eq_getElem hlt, hfree]
  have hback : (s.vfIncluded.set i true).set i false = s.vfIncluded := by
    rw [set_set, ← hfree, set_getElem_self]
  have hvalue := totalValue_flagged_set hgroup hflag
  -- the flags after index `i` stay as they were
  have hlater : ∀ j ≥ i + 1, j < groups.length →
      wanted j ((s.vfIncluded.set i true).getD j false) = true →
        (s.vfIncluded.set i true).getD j false = false := by
    intro j hj hlength
    rw [getD_eq_getElem?_getD, getElem?_set_ne (by omega), ← getD_eq_getElem?_getD]
    exact h.free j (by omega) hlength
  unfold SubsetSearch.includeGroup
  dsimp only
  split
  · rename_i hreached
    refine ⟨?_, ?_, ?_, ?_⟩
    · split
      · exact ⟨(length_set ..).trans h.length, by rw [hvalue, h.total], hreached⟩
      · exact { h.reaches with }
    · rw [hback]
      exact h.length
    · rw [hback, h.total, Int.add_sub_cancel]
    · rw [hback]
      exact fun j hj => h.free j (by omega)
  · refine ⟨{ h.reaches with }, ?_, ?_, hlater⟩
    · exact (length_set ..).trans h.length
    · rw [hvalue, h.total]

theorem Passing.pass : ∀ {rest : List OutputGroup} {i : Nat} {s : SubsetSearch},
    s.Passing groups target wanted i → groups.drop i = rest →
      ∃ j, (pass target wanted rest i s).Passing groups target wanted j
  | [], i, _, h, _ => ⟨i, h⟩
  | group :: rest, i, s, h, hrest => by
    have hgroup : groups[i]? = some group := by
      rw [← head?_drop, hrest]
      rfl
    have hnext : groups.drop (i + 1) = rest := by rw [← tail_drop, hrest]; rfl
    apply Passing.pass _ hnext
    split
    · rename_i hwanted
      exact h.includeGroup hgroup hwanted
    · exact ⟨h.reaches, h.length, h.total, fun j hj => h.free j (by omega)⟩

theorem Reaches.repetition (h : s.Reaches groups target) (randbool : Nat → Bool) :
    (repetition groups target randbool s).Reaches groups target := by
  have hstart : Passing groups target (fun i _ => randbool i) 0
      { s with
        vfIncluded := replicate groups.length false, nTotal := 0, fReachedTarget := false } :=
    { reaches := { h with }
      length := length_replicate
      total := (totalValue_flagged_replicate_false groups).symm
      free := fun j _ hj _ => by simp [hj] }
  obtain ⟨_, hfirst⟩ := hstart.pass drop_zero
  unfold SubsetSearch.repetition
  dsimp only
  split
  · exact hfirst.reaches
  · have hsecond : Passing groups target (fun _ included => !included) 0 _ :=
      { hfirst with free := fun j _ _ => by simp }
    obtain ⟨_, hdone⟩ := hsecond.pass drop_zero
    exact hdone.reaches

theorem Reaches.repetitions {randbool : Nat → Nat → Bool} : ∀ (left nRep : Nat)
    {s : SubsetSearch}, s.Reaches groups target →
      (repetitions groups target randbool left nRep s).Reaches groups target
  | 0, _, _, h => h
  | left + 1, nRep, s, h => by
    unfold SubsetSearch.repetitions
    split
    · exact h
    · exact Reaches.repetitions left (nRep + 1) (h.repetition (randbool nRep))

end SubsetSearch

theorem approximateBestSubset_reaches {nTotalLower : Int} (randbool : Nat → Nat → Bool)
    (htotal : nTotalLower = totalValue groups)
    (h : target ≤ nTotalLower) :
    (approximateBestSubset groups nTotalLower target randbool).Reaches groups target := by
  apply SubsetSearch.Reaches.repetitions
  exact ⟨length_replicate, by rw [flagged_replicate_true, htotal], h⟩

end Search

/-! ### What is selected -/

theorem totalValue_perm {l l' : List OutputGroup} (h : l ~ l') : totalValue l = totalValue l' :=
  (h.map _).sum_eq

/-- What the first loop has found in the groups it has seen. -/
structure SortedGroups.Splits (target : Int) (seen : List OutputGroup) (s : SortedGroups) :
    Prop where
  applicable : s.applicable_groups <+ seen
  total : s.nTotalLower = totalValue s.applicable_groups
  larger : ∀ larger, s.lowest_larger = some larger →
    larger ∈ seen ∧ target + MIN_CHANGE ≤ larger.m_value
  all : s.lowest_larger = none → s.applicable_groups = seen

/-- What the first loop says of the groups it has seen and of those to come. -/
def SplitsOrPays (target : Int) (seen rest : List OutputGroup) :
    Except OutputGroup SortedGroups → Prop
  | .error group => group ∈ rest ∧ group.m_value = target
  | .ok s => s.Splits target (seen ++ rest)

theorem sortGroups_splits {target : Int} : ∀ {rest seen : List OutputGroup} {s : SortedGroups},
    s.Splits target seen → SplitsOrPays target seen rest (sortGroups target rest s)
  | [], seen, s, h => by
    rw [sortGroups, SplitsOrPays, append_nil]
    exact h
  | group :: rest, seen, s, h => by
    have hnext : ∀ s', SortedGroups.Splits target (seen ++ [group]) s' →
        SplitsOrPays target seen (group :: rest) (sortGroups target rest s') := by
      intro s' hs'
      have hrest := @sortGroups_splits target rest _ s' hs'
      cases hsort : sortGroups target rest s' with
      | error found =>
        rw [hsort] at hrest
        exact ⟨mem_cons_of_mem _ hrest.1, hrest.2⟩
      | ok result =>
        rw [hsort, SplitsOrPays, append_assoc] at hrest
        exact hrest
    have hkeep : ∀ larger, s.lowest_larger = some larger →
        larger ∈ seen ++ [group] ∧ target + MIN_CHANGE ≤ larger.m_value :=
      fun larger hlarger => (h.larger larger hlarger).imp_left (mem_append_left _)
    have hgrow := h.applicable.trans (sublist_append_left seen [group])
    rw [sortGroups]
    split_ifs with htarget hlower hlarger
    · exact ⟨mem_cons_self, htarget⟩
    · apply hnext
      refine ⟨h.applicable.append (Sublist.refl _), ?_, hkeep, fun hnone => ?_⟩
      · simp [h.total, totalValue]
      · rw [h.all hnone]
    · apply hnext
      refine ⟨hgrow, h.total, ?_, nofun⟩
      rintro larger hsome
      obtain rfl := Option.some.inj hsome
      exact ⟨by simp, not_lt.mp hlower⟩
    · apply hnext
      refine ⟨hgrow, h.total, hkeep, fun hnone => ?_⟩
      simp [hnone] at hlarger

/-- The target exactly, or with enough for change. -/
def NoDust (target value : Int) : Prop := value = target ∨ target + MIN_CHANGE ≤ value

/-- Enough to pay, and without dust if there is enough. -/
def Pays (target : Int) (groups : List OutputGroup) (selection : CoinSelection) : Prop :=
  ∃ chosen, chosen <+~ groups ∧ selection = selectGroups chosen ∧
    target ≤ selection.nValueRet ∧
    (target + MIN_CHANGE ≤ totalValue groups → NoDust target selection.nValueRet)

section Solver

variable (choices : KnapsackChoices) {target : Int} {groups : List OutputGroup}

theorem searchSubset_spec {nTotalLower : Int} (htotal : nTotalLower = totalValue groups)
    (h : target ≤ nTotalLower) :
    (searchSubset choices target nTotalLower groups).Reaches groups target ∧
      (target + MIN_CHANGE ≤ nTotalLower →
        NoDust target (searchSubset choices target nTotalLower groups).nBest) := by
  unfold searchSubset
  dsimp only
  split
  · rename_i hagain
    have hreaches := approximateBestSubset_reaches (choices.randbool true) htotal hagain.2
    refine ⟨{ hreaches with target_le := ?_ }, fun _ => Or.inr hreaches.target_le⟩
    exact (le_add_of_nonneg_right (by decide)).trans hreaches.target_le
  · rename_i hdone
    refine ⟨approximateBestSubset_reaches _ htotal h, fun hmore => Or.inl ?_⟩
    by_contra hne
    exact hdone ⟨hne, hmore⟩

theorem pays_of_sublist {chosen : List OutputGroup} (hsub : chosen <+~ groups)
    (hdust : NoDust target (totalValue chosen)) : Pays target groups (selectGroups chosen) := by
  refine ⟨chosen, hsub, rfl, ?_, fun _ => hdust⟩
  rcases hdust with hexact | hmore
  · exact hexact.ge
  · exact (le_add_of_nonneg_right (by decide)).trans hmore

theorem pays_single {group : OutputGroup} (hmem : group ∈ groups)
    (hdust : NoDust target group.m_value) : Pays target groups (selectGroups [group]) :=
  pays_of_sublist (singleton_sublist.mpr hmem).subperm (by simpa [totalValue] using hdust)

theorem knapsackSolver_spec :
    match knapsackSolver choices target groups with
    | some selection => Pays target groups selection
    | none => totalValue groups < target := by
  have hperm := choices.shuffle_perm groups
  have hsplits := @sortGroups_splits target (choices.shuffle groups) [] {}
    ⟨Sublist.refl _, rfl, nofun, fun _ => rfl⟩
  unfold knapsackSolver
  cases hsorted : sortGroups target (choices.shuffle groups) {} with
  | error group =>
    rw [hsorted] at hsplits
    exact pays_single (hperm.mem_iff.mp hsplits.1) (Or.inl hsplits.2)
  | ok s =>
    rw [hsorted, SplitsOrPays, nil_append] at hsplits
    have happlicable : s.applicable_groups <+~ groups :=
      hsplits.applicable.subperm.trans hperm.subperm
    have hlarger : ∀ larger, s.lowest_larger = some larger →
        Pays target groups (selectGroups [larger]) := by
      intro larger hsome
      obtain ⟨hmem, hmore⟩ := hsplits.larger larger hsome
      exact pays_single (hperm.mem_iff.mp hmem) (Or.inr hmore)
    have hall : s.lowest_larger = none → totalValue groups = s.nTotalLower := by
      intro hnone
      rw [hsplits.total, hsplits.all hnone, totalValue_perm hperm]
    by_cases hexact : s.nTotalLower = target
    · simp only [if_pos hexact]
      exact pays_of_sublist happlicable (Or.inl (hsplits.total.symm.trans hexact))
    by_cases hless : s.nTotalLower < target
    · simp only [if_neg hexact, if_pos hless]
      cases hlowest : s.lowest_larger with
      | none => exact (hall hlowest).trans_lt hless
      | some larger => exact hlarger larger hlowest
    simp only [if_neg hexact, if_neg hless]
    have hsort := choices.std.perm descending s.applicable_groups
    obtain ⟨hreaches, hchange⟩ := searchSubset_spec choices
      (hsplits.total.trans (totalValue_perm hsort).symm) (not_lt.mp hless)
    generalize choices.std.sort descending s.applicable_groups = sorted at *
    generalize searchSubset choices target s.nTotalLower sorted = best at *
    have hsubset : (target + MIN_CHANGE ≤ totalValue groups → NoDust target best.nBest) →
        Pays target groups (selectGroups (flagged sorted best.vfBest)) := by
      rw [hreaches.best_value]
      refine fun hgood => ⟨_, ?_, rfl, hreaches.target_le.trans_eq hreaches.best_value, hgood⟩
      exact (flagged_sublist hreaches.best_length).subperm.trans (hsort.subperm.trans happlicable)
    cases hlowest : s.lowest_larger with
    | none => exact hsubset fun hmore => hchange (hall hlowest ▸ hmore)
    | some larger =>
      dsimp only
      split_ifs with hbigger
      · exact hlarger larger hlowest
      · refine hsubset fun _ => ?_
        unfold NoDust
        omega

end Solver

namespace Regtest

def eagerChoices : KnapsackChoices where
  shuffle := id
  shuffle_perm _ := Perm.refl _
  std := .insertion
  randbool _ _ _ := true

def cents : List OutputGroup := replicate 3 ⟨[], 1000000, 1000000⟩

end Regtest

end VBitcoin
