import VBitcoin.BlockTree
import VBitcoin.Coins

/-!
**The vector of the active chain** — `CChain`, indexed by height.  `SetTip` writes from the tip
downwards and stops at the first slot that already holds the block: what is below is right
only because every earlier call left a whole branch there (`IsBranch`).
-/

namespace VBitcoin

open CBlockIndex List

/-! ### `CChain` -/

def CBlockIndex.getAncestorAt (pindex : CBlockIndex) (height : Int) : Option CBlockIndex :=
  if height < 0 then none else pindex.getAncestor height.toNat

/-- `CChain`; a slot may hold null between `resize` and the loop of `SetTip`. -/
structure CChain where
  vChain : List (Option CBlockIndex) := []
  deriving DecidableEq, Repr

namespace CChain

def tip (chain : CChain) : Option CBlockIndex :=
  if 0 < chain.vChain.length then (chain.vChain[chain.vChain.length - 1]?).join else none

def operatorAt (chain : CChain) (nHeight : Int) : Option CBlockIndex :=
  if nHeight < 0 ∨ (chain.vChain.length : Int) ≤ nHeight then none
  else (chain.vChain[nHeight.toNat]?).join

def contains (chain : CChain) (pindex : CBlockIndex) : Bool :=
  chain.operatorAt pindex.nHeight == some pindex

def next (chain : CChain) (pindex : CBlockIndex) : Option CBlockIndex :=
  if chain.contains pindex then chain.operatorAt (pindex.nHeight + 1) else none

def height (chain : CChain) : Int := chain.vChain.length - 1

def resize (vChain : List (Option CBlockIndex)) (n : Nat) : List (Option CBlockIndex) :=
  vChain.take n ++ List.replicate (n - vChain.length) none

/-- The loop of `SetTip`; `pindex` is given by its path, empty once it is null. -/
def setTipLoop : List IndexEntry → List (Option CBlockIndex) → List (Option CBlockIndex)
  | [], vChain => vChain
  | entry :: ancestors, vChain =>
    let pindex : CBlockIndex := ⟨entry, ancestors⟩
    if (vChain[pindex.nHeight]?).join = some pindex then vChain
    else setTipLoop ancestors (vChain.set pindex.nHeight (some pindex))

def setTip (chain : CChain) : Option CBlockIndex → CChain
  | none => {}
  | some pindex => ⟨setTipLoop pindex.path (resize chain.vChain (pindex.nHeight + 1))⟩

def findForkLoop (chain : CChain) : List IndexEntry → Option CBlockIndex
  | [] => none
  | entry :: ancestors =>
    if chain.contains ⟨entry, ancestors⟩ then some ⟨entry, ancestors⟩
    else chain.findForkLoop ancestors

def findFork (chain : CChain) : Option CBlockIndex → Option CBlockIndex
  | none => none
  | some pindex =>
    let start :=
      if chain.height < pindex.nHeight then pindex.getAncestorAt chain.height else some pindex
    match start with
    | none => none
    | some start => chain.findForkLoop start.path

end CChain

/-- The loop of `LastCommonAncestor` and the assertion after it. -/
def commonLoop : List IndexEntry → List IndexEntry → Run (Option CBlockIndex)
  | [], [] => pure none
  | [], _ :: _ => .error (.assertion "pa == pb")
  | _ :: _, [] => .error (.assertion "pa == pb")
  | a :: as, b :: bs =>
    if (⟨a, as⟩ : CBlockIndex) = ⟨b, bs⟩ then pure (some ⟨a, as⟩) else commonLoop as bs

def lastCommonAncestor (pa pb : CBlockIndex) : Run (Option CBlockIndex) :=
  let pa' := if pb.nHeight < pa.nHeight then pa.getAncestor pb.nHeight else some pa
  let pb' := if pa.nHeight < pb.nHeight then pb.getAncestor pa.nHeight else some pb
  commonLoop ((pa'.map path).getD []) ((pb'.map path).getD [])

/-! ### Blocks by height -/

namespace CBlockIndex

theorem exists_le_nHeight {h : Nat} (b : CBlockIndex) (hh : h ≤ b.nHeight) :
    ∃ a, a ≤ b ∧ a.nHeight = h := by
  induction b using induction_pprev with
  | step b ih =>
    rcases hh.eq_or_lt with heq | hlt
    · exact ⟨b, le_refl b, heq.symm⟩
    · cases hp : b.pprev with
      | none =>
        have := nHeight_of_pprev_none hp
        omega
      | some p =>
        have hheight := nHeight_pprev hp
        obtain ⟨a, ha, rfl⟩ := ih p hp (by omega)
        exact ⟨a, ha.trans (pprev_le hp), rfl⟩

variable {a b : CBlockIndex}

theorem getAncestor_eq_some {h : Nat} : b.getAncestor h = some a ↔ a ≤ b ∧ a.nHeight = h := by
  constructor
  · intro hancestor
    have hh : h ≤ b.nHeight := by
      by_contra hlt
      rw [getAncestor, if_pos (Nat.lt_of_not_le hlt)] at hancestor
      cases hancestor
    obtain ⟨c, hcb, rfl⟩ := b.exists_le_nHeight hh
    rw [getAncestor_eq_some_iff.mpr hcb] at hancestor
    obtain rfl := Option.some.inj hancestor
    exact ⟨hcb, rfl⟩
  · rintro ⟨hab, rfl⟩
    exact getAncestor_eq_some_iff.mpr hab

theorem getAncestor_of_le (h : a ≤ b) {n : Nat} (hn : n ≤ a.nHeight) :
    b.getAncestor n = a.getAncestor n := by
  obtain ⟨c, hca, rfl⟩ := a.exists_le_nHeight hn
  rw [getAncestor_eq_some_iff.mpr hca, getAncestor_eq_some_iff.mpr (hca.trans h)]

theorem eq_of_nHeight_eq {t : CBlockIndex} (ha : a ≤ t) (hb : b ≤ t)
    (h : a.nHeight = b.nHeight) : a = b :=
  le_antisymm (le_of_nHeight_le ha hb h.le) (le_of_nHeight_le hb ha h.ge)

end CBlockIndex

namespace CChain

/-! ### The invariant of the vector -/

/-- The vector holds the branch of the tip and nothing else. -/
def IsBranch (vChain : List (Option CBlockIndex)) : Option CBlockIndex → Prop
  | none => vChain = []
  | some tip => vChain.length = tip.nHeight + 1 ∧ ∀ a ≤ tip, vChain[a.nHeight]? = some (some a)

variable {vChain : List (Option CBlockIndex)} {tip : Option CBlockIndex} {t b : CBlockIndex}

theorem IsBranch.getElem?_eq_some_iff (h : IsBranch vChain tip) :
    vChain[b.nHeight]? = some (some b) ↔ ∃ t, tip = some t ∧ b ≤ t := by
  cases tip with
  | none => simp [show vChain = [] from h]
  | some t =>
    obtain ⟨hlength, hstored⟩ := h
    constructor
    · intro hb
      refine ⟨t, rfl, ?_⟩
      have hlt : b.nHeight < vChain.length := (List.getElem?_eq_some_iff.mp hb).1
      -- the slot holds the ancestor of that height, so `b` is that ancestor
      obtain ⟨a, ha, hheight⟩ := t.exists_le_nHeight (h := b.nHeight) (by omega)
      have hslot := hstored a ha
      rw [hheight, hb] at hslot
      cases hslot
      exact ha
    · rintro ⟨_, ⟨⟩, hle⟩
      exact hstored b hle

theorem length_resize (vChain : List (Option CBlockIndex)) (n : Nat) :
    (resize vChain n).length = n := by
  simp only [resize, length_append, length_take, length_replicate]
  omega

/-- Resizing loses the slots above and adds empty ones; no slot is filled by it. -/
theorem getElem?_resize {n i : Nat} (hi : i < n) (b : CBlockIndex) :
    (resize vChain n)[i]? = some (some b) ↔ vChain[i]? = some (some b) := by
  rcases Nat.lt_or_ge i vChain.length with hlt | hge
  · rw [resize, getElem?_append_left (by simp; omega), getElem?_take_of_lt hi]
  · rw [resize, getElem?_append_right (by simp; omega), getElem?_replicate,
      getElem?_eq_none hge]
    split <;> simp

/-! ### `SetTip` -/

/-- A slot that holds its block must come with the whole branch under it. -/
theorem setTipLoop_spec (p : CBlockIndex) : ∀ vChain : List (Option CBlockIndex),
    p.nHeight < vChain.length →
    (∀ a ≤ p, vChain[a.nHeight]? = some (some a) → ∀ c ≤ a, vChain[c.nHeight]? = some (some c)) →
    (setTipLoop p.path vChain).length = vChain.length ∧
      (∀ a ≤ p, (setTipLoop p.path vChain)[a.nHeight]? = some (some a)) ∧
      ∀ i, p.nHeight < i → (setTipLoop p.path vChain)[i]? = vChain[i]? := by
  induction p using induction_pprev with
  | step p ih =>
    intro vChain hlt hclosed
    by_cases hslot : (vChain[p.nHeight]?).join = some p
    · -- the loop stops here, on top of what earlier calls left
      have hloop : setTipLoop p.path vChain = vChain := if_pos hslot
      rw [hloop]
      exact ⟨rfl, hclosed p (le_refl p) (Option.join_eq_some_iff.mp hslot), fun _ _ => rfl⟩
    · have hloop : setTipLoop p.path vChain =
          setTipLoop p.ancestors (vChain.set p.nHeight (some p)) := if_neg hslot
      have hself : (vChain.set p.nHeight (some p))[p.nHeight]? = some (some p) :=
        getElem?_set_self hlt
      rw [hloop]
      cases hp : p.pprev with
      | none =>
        rw [pprev_eq_none.mp hp]
        refine ⟨length_set, ?_, ?_⟩
        · intro a ha
          rw [eq_of_le_of_pprev_none ha hp]
          exact hself
        · intro i hi
          exact getElem?_set_ne hi.ne
      | some q =>
        rw [pprev_eq_some.mp hp]
        have hheight := nHeight_pprev hp
        have hbelow : ∀ c ≤ q, (vChain.set p.nHeight (some p))[c.nHeight]? = vChain[c.nHeight]? := by
          intro c hc
          have := nHeight_le hc
          exact getElem?_set_ne (by omega)
        obtain ⟨hlength, hstored, habove⟩ := ih q hp
          (vChain.set p.nHeight (some p)) (by rw [length_set]; omega) (by
            intro a ha hslot c hc
            rw [hbelow a ha] at hslot
            rw [hbelow c (hc.trans ha)]
            exact hclosed a (ha.trans (pprev_le hp)) hslot c hc)
        refine ⟨hlength.trans length_set, ?_, ?_⟩
        · intro a ha
          rcases (le_iff_eq_or_le_pprev hp).mp ha with rfl | haq
          · rw [habove a.nHeight (by omega)]
            exact hself
          · exact hstored a haq
        · intro i hi
          rw [habove i (by omega)]
          exact getElem?_set_ne hi.ne

variable {chain : CChain}

theorem IsBranch.setTip (h : IsBranch chain.vChain tip)
    (pindex : Option CBlockIndex) : IsBranch (chain.setTip pindex).vChain pindex := by
  cases pindex with
  | none => rfl
  | some t =>
    have hspec := setTipLoop_spec t (resize chain.vChain (t.nHeight + 1))
      (by rw [length_resize]; omega) (by
        intro a ha hslot c hc
        have hat := nHeight_le ha
        have hca := nHeight_le hc
        rw [getElem?_resize (by omega), h.getElem?_eq_some_iff] at hslot ⊢
        obtain ⟨o, rfl, hao⟩ := hslot
        exact ⟨o, rfl, hc.trans hao⟩)
    exact ⟨hspec.1.trans (length_resize _ _), hspec.2.1⟩

variable (calls : List (Option CBlockIndex))

/-- The chain after a run of `SetTip` calls on an empty one. -/
def setTips : CChain := calls.foldl setTip {}

theorem isBranch_foldl_setTip :
    ∀ (chain : CChain) (tip : Option CBlockIndex), IsBranch chain.vChain tip →
      IsBranch (calls.foldl CChain.setTip chain).vChain (calls.getLast?.getD tip) := by
  induction calls with
  | nil => exact fun _ _ h => h
  | cons call rest ih =>
    intro chain tip h
    have hrest := ih _ _ (h.setTip call)
    rw [foldl_cons, getLast?_cons]
    exact hrest

theorem isBranch_setTips : IsBranch (setTips calls).vChain calls.getLast?.join := by
  have h := isBranch_foldl_setTip calls {} none rfl
  cases hlast : calls.getLast? with
  | none => rwa [hlast] at h
  | some last => rwa [hlast] at h

/-! ### Reading the vector -/

theorem operatorAt_natCast (chain : CChain) (h : Nat) :
    chain.operatorAt h = (chain.vChain[h]?).join := by
  unfold operatorAt
  split
  · rename_i hout
    rw [getElem?_eq_none (by omega)]
    rfl
  · rfl

theorem operatorAt_eq_some_iff (h : IsBranch chain.vChain tip) (i : Nat) :
    chain.operatorAt i = some b ↔ b.nHeight = i ∧ ∃ t, tip = some t ∧ b ≤ t := by
  rw [operatorAt_natCast, Option.join_eq_some_iff]
  constructor
  · intro hslot
    cases tip with
    | none => simp [show chain.vChain = [] from h] at hslot
    | some t =>
      have hlt : i < chain.vChain.length := (List.getElem?_eq_some_iff.mp hslot).1
      obtain ⟨a, ha, rfl⟩ := t.exists_le_nHeight (h := i) (by have := h.1; omega)
      rw [h.2 a ha] at hslot
      cases hslot
      exact ⟨rfl, t, rfl, ha⟩
  · rintro ⟨rfl, hbranch⟩
    exact h.getElem?_eq_some_iff.mpr hbranch

theorem contains_iff (h : IsBranch chain.vChain tip) :
    chain.contains b = true ↔ ∃ t, tip = some t ∧ b ≤ t := by
  rw [contains, beq_iff_eq, operatorAt_eq_some_iff h]
  exact and_iff_right rfl

theorem next_eq_some_iff (h : IsBranch chain.vChain tip) {c : CBlockIndex} :
    chain.next b = some c ↔ c.pprev = some b ∧ ∃ t, tip = some t ∧ c ≤ t := by
  unfold next
  constructor
  · intro hnext
    split at hnext
    · rename_i hb
      obtain ⟨hheight, t, rfl, hct⟩ := (operatorAt_eq_some_iff h (b.nHeight + 1)).mp hnext
      obtain ⟨_, ⟨⟩, hbt⟩ := (contains_iff h).mp hb
      -- `c` is above `b`, so it has a parent, at the height of `b` and on the same branch
      have hbc : b < c := by
        refine lt_of_le_of_ne (le_of_nHeight_le hbt hct (by omega)) ?_
        rintro rfl
        omega
      obtain ⟨p, hp⟩ := exists_pprev_of_lt hbc
      refine ⟨?_, t, rfl, hct⟩
      have hpheight := nHeight_pprev hp
      rw [eq_of_nHeight_eq hbt ((pprev_le hp).trans hct) (by omega)]
      exact hp
    · cases hnext
  · rintro ⟨hp, t, rfl, hct⟩
    rw [if_pos ((contains_iff h).mpr ⟨t, rfl, (pprev_le hp).trans hct⟩)]
    exact (operatorAt_eq_some_iff h (b.nHeight + 1)).mpr ⟨nHeight_pprev hp, t, rfl, hct⟩

theorem tip_eq (h : IsBranch chain.vChain tip) : chain.tip = tip := by
  unfold CChain.tip
  cases tip with
  | none => rw [show chain.vChain = [] from h]; rfl
  | some t =>
    rw [if_pos (by rw [h.1]; omega), h.1, Nat.add_sub_cancel, h.2 t (le_refl t)]
    rfl

theorem IsBranch.tip_setTip (h : IsBranch chain.vChain tip)
    (pindex : Option CBlockIndex) : (chain.setTip pindex).tip = pindex ∧
      IsBranch (chain.setTip pindex).vChain (chain.setTip pindex).tip := by
  have htip := tip_eq (h.setTip pindex)
  refine ⟨htip, ?_⟩
  rw [htip]
  exact h.setTip pindex

theorem isBranch_empty : IsBranch ({} : CChain).vChain none := rfl

section Branch

variable (h : IsBranch chain.vChain (some t))

include h

theorem vChain_eq_map :
    chain.vChain = (List.range (t.nHeight + 1)).map fun i => t.getAncestor i := by
  apply ext_getElem?
  intro i
  rw [getElem?_map]
  rcases Nat.lt_or_ge i (t.nHeight + 1) with hlt | hge
  · obtain ⟨a, ha, rfl⟩ := t.exists_le_nHeight (h := i) (by omega)
    rw [getElem?_range hlt, Option.map_some, getAncestor_eq_some_iff.mpr ha]
    exact h.2 a ha
  · rw [getElem?_eq_none (by rw [h.1]; exact hge), getElem?_eq_none (by simpa using hge)]
    rfl

/-! ### Forks -/

variable (p : CBlockIndex)

/-- At equal heights the two descents meet in the same step. -/
theorem commonLoop_eq :
    ∀ q ≤ t, p.nHeight = q.nHeight →
      commonLoop p.path q.path = .ok (chain.findForkLoop p.path) := by
  induction p using induction_pprev with
  | step p ih =>
    intro q hq hheight
    have hsame : p = q ↔ chain.contains p = true := by
      rw [contains_iff h]
      constructor
      · rintro rfl
        exact ⟨t, rfl, hq⟩
      · rintro ⟨_, ⟨⟩, hp⟩
        exact eq_of_nHeight_eq hp hq hheight
    by_cases hpq : p = q
    · have hleft : commonLoop p.path q.path = .ok (some p) := if_pos hpq
      have hright : chain.findForkLoop p.path = some p := if_pos (hsame.mp hpq)
      rw [hleft, hright]
    · have hleft : commonLoop p.path q.path = commonLoop p.ancestors q.ancestors := if_neg hpq
      have hright : chain.findForkLoop p.path = chain.findForkLoop p.ancestors :=
        if_neg fun hcontains => hpq (hsame.mpr hcontains)
      rw [hleft, hright]
      cases hp : p.pprev with
      | none =>
        have hq : q.ancestors = [] := by
          apply eq_nil_of_length_eq_zero
          rw [← nHeight, ← hheight]
          exact nHeight_of_pprev_none hp
        rw [pprev_eq_none.mp hp, hq]
        rfl
      | some p' =>
        have hp' := nHeight_pprev hp
        cases hqprev : q.pprev with
        | none =>
          have := nHeight_of_pprev_none hqprev
          omega
        | some q' =>
          have hq' := nHeight_pprev hqprev
          rw [pprev_eq_some.mp hp, pprev_eq_some.mp hqprev]
          exact ih p' hp q' ((pprev_le hqprev).trans hq) (by omega)

theorem height_eq : chain.height = t.nHeight := by
  rw [height, h.1]
  omega

theorem lastCommonAncestor_eq_findFork (b : CBlockIndex) :
    lastCommonAncestor b t = .ok (chain.findFork (some b)) := by
  have hheight := height_eq h
  unfold lastCommonAncestor findFork
  simp only [hheight, Int.ofNat_lt]
  rcases Nat.lt_trichotomy b.nHeight t.nHeight with hlt | heq | hgt
  · -- the tip is higher: its ancestor at the height of `b` takes its place
    obtain ⟨q, hq, hqh⟩ := t.exists_le_nHeight (h := b.nHeight) hlt.le
    have hancestor : t.getAncestor b.nHeight = some q := by
      rw [← hqh]
      exact getAncestor_eq_some_iff.mpr hq
    simp only [if_neg hlt.not_gt, if_pos hlt, hancestor]
    exact commonLoop_eq h b q hq hqh.symm
  · simp only [if_neg heq.ge.not_gt, if_neg heq.le.not_gt]
    exact commonLoop_eq h b t (le_refl t) heq
  · obtain ⟨p, hp, hph⟩ := b.exists_le_nHeight (h := t.nHeight) hgt.le
    have hancestor : b.getAncestor t.nHeight = some p := by
      rw [← hph]
      exact getAncestor_eq_some_iff.mpr hp
    have hat : b.getAncestorAt t.nHeight = some p := by
      rw [getAncestorAt, if_neg (by omega), Int.toNat_natCast, hancestor]
    simp only [if_pos hgt, if_neg hgt.not_gt, hancestor, hat]
    exact commonLoop_eq h p t (le_refl t) hph

theorem findForkLoop_spec (hcommon : ∃ a, a ≤ p ∧ a ≤ t) :
    ∃ f, chain.findForkLoop p.path = some f ∧ f ≤ p ∧ f ≤ t ∧ ∀ a ≤ p, a ≤ t → a ≤ f := by
  induction p using induction_pprev with
  | step p ih =>
    by_cases hin : chain.contains p = true
    · obtain ⟨_, ⟨⟩, hpt⟩ := (contains_iff h).mp hin
      exact ⟨p, if_pos hin, le_refl p, hpt, fun a ha _ => ha⟩
    · have hout : ¬ p ≤ t := fun hpt => hin ((contains_iff h).mpr ⟨t, rfl, hpt⟩)
      obtain ⟨a, hap, hat⟩ := hcommon
      obtain ⟨q, hq⟩ := exists_pprev_of_lt (lt_of_le_of_ne hap fun heq => hout (heq ▸ hat))
      have hbelow : ∀ a ≤ p, a ≤ t → a ≤ q := by
        intro a hap hat
        rcases (le_iff_eq_or_le_pprev hq).mp hap with rfl | haq
        · exact absurd hat hout
        · exact haq
      have hloop : chain.findForkLoop p.path = chain.findForkLoop q.path := by
        rw [← pprev_eq_some.mp hq]
        exact if_neg hin
      obtain ⟨f, hf, hfq, hft, hmax⟩ := ih q hq ⟨a, hbelow a hap hat, hat⟩
      refine ⟨f, hloop.trans hf, hfq.trans (pprev_le hq), hft, fun a hap hat => ?_⟩
      exact hmax a (hbelow a hap hat) hat

theorem findFork_spec (hcommon : ∃ a, a ≤ p ∧ a ≤ t) :
    ∃ f, chain.findFork (some p) = some f ∧ f ≤ p ∧ f ≤ t ∧ ∀ a ≤ p, a ≤ t → a ≤ f := by
  have hheight := height_eq h
  rcases Nat.lt_or_ge t.nHeight p.nHeight with hlt | hge
  · -- the search starts at the ancestor of `p` at the height of the tip
    obtain ⟨q, hqp, hqh⟩ := p.exists_le_nHeight (h := t.nHeight) hlt.le
    have hstart : p.getAncestorAt chain.height = some q := by
      rw [hheight, getAncestorAt, if_neg (by omega), Int.toNat_natCast, ← hqh]
      exact getAncestor_eq_some_iff.mpr hqp
    have hbelow : ∀ a ≤ p, a ≤ t → a ≤ q := by
      intro a hap hat
      exact le_of_nHeight_le hap hqp (hqh.symm ▸ nHeight_le hat)
    obtain ⟨a, hap, hat⟩ := hcommon
    obtain ⟨f, hf, hfq, hft, hmax⟩ := findForkLoop_spec h q ⟨a, hbelow a hap hat, hat⟩
    have hfind : chain.findFork (some p) = chain.findForkLoop q.path := by
      simp only [findFork, if_pos (show chain.height < p.nHeight by omega), hstart]
    refine ⟨f, hfind.trans hf, hfq.trans hqp, hft, fun a hap hat => ?_⟩
    exact hmax a (hbelow a hap hat) hat
  · have hfind : chain.findFork (some p) = chain.findForkLoop p.path := by
      simp only [findFork, if_neg (show ¬ chain.height < p.nHeight by omega)]
    rw [hfind]
    exact findForkLoop_spec h p hcommon

end Branch

theorem lastCommonAncestor_spec {p q : CBlockIndex} (hcommon : ∃ a, a ≤ p ∧ a ≤ q) :
    ∃ f, lastCommonAncestor p q = .ok (some f) ∧ f ≤ p ∧ f ≤ q ∧ ∀ a ≤ p, a ≤ q → a ≤ f := by
  have hbranch : IsBranch (CChain.setTip {} (some q)).vChain (some q) :=
    isBranch_empty.setTip (some q)
  obtain ⟨f, hf, hfp, hfq, hmax⟩ := findFork_spec hbranch p hcommon
  refine ⟨f, ?_, hfp, hfq, hmax⟩
  rw [lastCommonAncestor_eq_findFork hbranch, hf]

theorem findFork_none (h : IsBranch chain.vChain none) (b : CBlockIndex) :
    chain.findFork (some b) = none := by
  have hheight : chain.height = -1 := by
    rw [height, show chain.vChain = [] from h]
    rfl
  unfold findFork
  rw [hheight]
  simp only [if_pos (show (-1 : Int) < (b.nHeight : Int) by omega)]
  rfl

/-- After any run of `SetTip` calls the vector is the branch of the last tip, for all its readers.
    -/
theorem setTips_branch (calls : List (Option CBlockIndex)) :
    (setTips calls).tip = calls.getLast?.join ∧
    (calls.getLast?.join = none → (setTips calls).vChain = [] ∧
      ∀ b, (setTips calls).contains b = false ∧ (setTips calls).next b = none ∧
        (setTips calls).findFork (some b) = none) ∧
    ∀ t, calls.getLast?.join = some t →
      (setTips calls).vChain.length = t.nHeight + 1 ∧
      (setTips calls).vChain = (List.range (t.nHeight + 1)).map (fun i => t.getAncestor i) ∧
      ∀ b, ((setTips calls).contains b = true ↔ b ≤ t) ∧
        (∀ c, (setTips calls).next b = some c ↔ c.pprev = some b ∧ c ≤ t) ∧
        lastCommonAncestor b t = .ok ((setTips calls).findFork (some b)) := by
  have hbranch := isBranch_setTips calls
  refine ⟨tip_eq hbranch, ?_, ?_⟩
  · intro hnone
    rw [hnone] at hbranch
    refine ⟨hbranch, fun b => ⟨?_, ?_, findFork_none hbranch b⟩⟩
    · apply Bool.eq_false_iff.mpr
      intro hcontains
      obtain ⟨_, ⟨⟩, _⟩ := (contains_iff hbranch).mp hcontains
    · apply Option.eq_none_iff_forall_ne_some.mpr
      intro c hnext
      obtain ⟨_, _, ⟨⟩, _⟩ := (next_eq_some_iff hbranch).mp hnext
  · intro t ht
    rw [ht] at hbranch
    refine ⟨hbranch.1, vChain_eq_map hbranch, fun b => ⟨?_, fun c => ?_, ?_⟩⟩
    · rw [contains_iff hbranch]
      constructor
      · rintro ⟨_, ⟨⟩, hle⟩
        exact hle
      · exact fun hle => ⟨t, rfl, hle⟩
    · rw [next_eq_some_iff hbranch]
      constructor
      · rintro ⟨hp, _, ⟨⟩, hle⟩
        exact ⟨hp, hle⟩
      · exact fun hc => ⟨hc.1, t, rfl, hc.2⟩
    · exact lastCommonAncestor_eq_findFork hbranch b

end CChain

end VBitcoin
