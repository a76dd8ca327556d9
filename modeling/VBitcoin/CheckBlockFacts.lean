import VBitcoin.CheckBlock

/-!
**What the context-free checks establish** — `TxWellFormed` and
`BlockWellFormed` collect what later stages use of a transaction or block that
passed, and `checkBlock_error` says that a block that did not pass was
rejected: the checks never abort, throw or overflow.
-/

namespace VBitcoin

/-! ### Output values -/

variable {nValueOut : Int} {txout : CTxOut} {tx : CTransaction}

theorem checkOutputValue_eq_ok {total : Int} (h : checkOutputValue nValueOut txout = .ok total) :
    moneyRange txout.nValue = true ∧ total = nValueOut + txout.nValue ∧
      moneyRange total = true := by
  simp only [checkOutputValue, bind_eq_ok, require_eq_ok, exists_const, pure_eq_ok_iff,
    decide_eq_true_eq] at h
  obtain ⟨hneg, hlarge, sum, hsum, hrange, rfl⟩ := h
  exact ⟨moneyRange_iff.mpr ⟨hneg, hlarge⟩, (addAmount_eq_ok.mp hsum).1, hrange⟩

theorem checkOutputValues_eq_ok : ∀ {vout : List CTxOut} {start total : Int},
    moneyRange start = true → vout.foldlM checkOutputValue start = .ok total →
      (∀ txout ∈ vout, moneyRange txout.nValue = true) ∧
        total = start + (vout.map CTxOut.nValue).sum ∧ moneyRange total = true
  | [], start, total, hstart, h => by
      simp only [List.foldlM_nil, pure_eq_ok_iff] at h
      subst h
      exact ⟨fun _ hmem => absurd hmem List.not_mem_nil, by simp, hstart⟩
  | txout :: rest, start, total, hstart, h => by
      rw [List.foldlM_cons, bind_eq_ok] at h
      obtain ⟨mid, hmid, h⟩ := h
      obtain ⟨hvalue, hsum, hrange⟩ := checkOutputValue_eq_ok hmid
      obtain ⟨hvalues, htotal, hfinal⟩ := checkOutputValues_eq_ok hrange h
      refine ⟨fun out hmem => ?_, ?_, hfinal⟩
      · rcases List.mem_cons.mp hmem with rfl | hmem
        · exact hvalue
        · exact hvalues out hmem
      · rw [htotal, hsum, List.map_cons, List.sum_cons]
        omega

def TxRejected (stop : Stop) : Prop := ∃ reason, stop = .txInvalid .TX_CONSENSUS reason ""

theorem checkOutputValue_stops (hstart : moneyRange nValueOut = true)
    (txout : CTxOut) : StopsWith TxRejected (checkOutputValue nValueOut txout) := by
  refine stopsWith_require_bind ⟨_, rfl⟩ fun hneg => ?_
  refine stopsWith_require_bind ⟨_, rfl⟩ fun hlarge => ?_
  rw [decide_eq_true_eq] at hneg hlarge
  rw [addAmount_of_moneyRange hstart (moneyRange_iff.mpr ⟨hneg, hlarge⟩), ok_bind]
  exact stopsWith_require_bind ⟨_, rfl⟩ fun _ => stopsWith_ok _ _

/-! ### Transactions -/

structure TxWellFormed (tx : CTransaction) : Prop where
  vin_ne_nil : tx.vin ≠ []
  vout_ne_nil : tx.vout ≠ []
  size : tx.strippedSize * WITNESS_SCALE_FACTOR ≤ MAX_BLOCK_WEIGHT
  values : ∀ txout ∈ tx.vout, moneyRange txout.nValue = true
  total : moneyRange (tx.vout.map CTxOut.nValue).sum = true
  nodup : (tx.vin.map CTxIn.prevout).Nodup
  not_null : tx.isCoinBase = false → ∀ txin ∈ tx.vin, txin.prevout.isNull = false

theorem TxWellFormed.not_isNull (h : TxWellFormed tx)
    (hmem : txout ∈ tx.vout) : txout.isNull = false := by
  have hvalue := (moneyRange_iff.mp (h.values txout hmem)).1
  rw [CTxOut.isNull, beq_eq_false_iff_ne]
  omega

theorem checkTransaction_eq_ok {u : Unit} (h : checkTransaction tx = .ok u) : TxWellFormed tx := by
  simp only [checkTransaction, bind_eq_ok, require_eq_ok, exists_const, decide_eq_true_eq,
    Bool.not_eq_true', List.isEmpty_eq_false_iff] at h
  obtain ⟨hvin, hvout, hsize, total, htotal, hnodup, hlast⟩ := h
  obtain ⟨hvalues, hsum, hrange⟩ := checkOutputValues_eq_ok (by decide) htotal
  refine ⟨hvin, hvout, hsize, hvalues, ?_, hnodup, ?_⟩
  · rwa [hsum, Int.zero_add] at hrange
  · intro hcoinbase
    rw [hcoinbase] at hlast
    simpa using hlast

theorem checkTransaction_stops (tx : CTransaction) :
    StopsWith TxRejected (checkTransaction tx) := by
  refine stopsWith_require_bind ⟨_, rfl⟩ fun _ => ?_
  refine stopsWith_require_bind ⟨_, rfl⟩ fun _ => ?_
  refine stopsWith_require_bind ⟨_, rfl⟩ fun _ => ?_
  refine stopsWith_bind ?_ fun _ _ => ?_
  · exact stopsWith_foldlM (fun total => moneyRange total = true)
      (fun _ _ _ _ h => (checkOutputValue_eq_ok h).2.2)
      (fun _ txout h => checkOutputValue_stops h txout) (by decide)
  refine stopsWith_require_bind ⟨_, rfl⟩ fun _ => ?_
  exact stopsWith_ite (stopsWith_require ⟨_, rfl⟩ _) (stopsWith_require ⟨_, rfl⟩ _)

/-! ### Blocks -/

structure BlockWellFormed (block : CBlock) : Prop where
  count : block.vtx.length * WITNESS_SCALE_FACTOR ≤ MAX_BLOCK_WEIGHT
  coinbase : ∃ tx rest, block.vtx = tx :: rest ∧ tx.isCoinBase = true ∧
    ∀ t ∈ rest, t.isCoinBase = false
  txs : ∀ tx ∈ block.vtx, TxWellFormed tx

def BlockRejected (stop : Stop) : Prop :=
  ∃ result reason debug, stop = .blockInvalid result reason debug ∧ result ≠ .BLOCK_MUTATED

namespace NodeEnv

variable (E : NodeEnv)

variable {u : Unit} {block : CBlock}

theorem checkBlockTransaction_eq_ok {tx : CTransaction}
    (h : E.checkBlockTransaction tx = .ok u) : TxWellFormed tx := by
  apply checkTransaction_eq_ok (u := u)
  unfold checkBlockTransaction at h
  split at h
  · cases h
  · exact h

theorem checkBlockTransaction_stops (tx : CTransaction) :
    StopsWith BlockRejected (E.checkBlockTransaction tx) := by
  intro stop h
  unfold checkBlockTransaction at h
  split at h
  · cases h
    exact ⟨_, _, _, rfl, by decide⟩
  · rename_i hnot
    obtain ⟨reason, rfl⟩ := checkTransaction_stops tx stop h
    exact absurd h (hnot _ _ _)

theorem forM_eq_ok {ι : Type} {body : ι → Run Unit} : ∀ {l : List ι} {u : Unit},
    l.forM body = .ok u → ∀ i ∈ l, body i = .ok ()
  | [], _, _, _, hi => absurd hi List.not_mem_nil
  | j :: rest, u, h, i, hi => by
      obtain ⟨u', hj, hrest⟩ := bind_eq_ok.mp h
      rcases List.mem_cons.mp hi with rfl | hi
      · exact hj
      · exact forM_eq_ok hrest i hi

theorem checkBlockRules_eq_ok {fCheckPOW : Bool}
    (h : E.checkBlockRules block fCheckPOW = .ok u) : BlockWellFormed block := by
  unfold checkBlockRules at h
  simp only [bind_eq_ok, require_eq_ok, exists_const] at h
  obtain ⟨-, -, -, -, hsize, hfirst, hothers, _, htxs, -⟩ := h
  simp only [Bool.not_eq_true', Bool.or_eq_false_iff, decide_eq_false_iff_not, not_lt] at hsize
  refine ⟨hsize.1.2, ?_, fun tx hmem => E.checkBlockTransaction_eq_ok (forM_eq_ok htxs tx hmem)⟩
  cases hvtx : block.vtx with
  | nil =>
    rw [hvtx] at hsize
    simp at hsize
  | cons tx rest =>
    rw [hvtx] at hfirst hothers
    refine ⟨tx, rest, rfl, by simpa using hfirst, ?_⟩
    simpa using hothers

theorem checkPopData_stops (block : CBlock) : StopsWith BlockRejected (E.checkPopData block) := by
  refine stopsWith_require_bind ⟨_, _, _, rfl, by decide⟩ fun _ => ?_
  refine stopsWith_require_bind ⟨_, _, _, rfl, by decide⟩ fun _ => ?_
  refine stopsWith_onlyIf ?_ _
  split
  · exact stopsWith_error ⟨_, _, _, rfl, by decide⟩
  · exact stopsWith_ok _ _

/-- **`CheckBlock` only ever rejects**, and never because of a mutation. -/
theorem checkBlockRules_stops (block : CBlock) (fCheckPOW : Bool) :
    StopsWith BlockRejected (E.checkBlockRules block fCheckPOW) := by
  refine stopsWith_require_bind ⟨_, _, _, rfl, by decide⟩ fun _ => ?_
  refine stopsWith_bind (E.checkPopData_stops block) fun _ _ => ?_
  refine stopsWith_require_bind ⟨_, _, _, rfl, by decide⟩ fun _ => ?_
  refine stopsWith_require_bind ⟨_, _, _, rfl, by decide⟩ fun _ => ?_
  refine stopsWith_require_bind ⟨_, _, _, rfl, by decide⟩ fun _ => ?_
  refine stopsWith_bind (stopsWith_forM fun tx _ => E.checkBlockTransaction_stops tx) fun _ _ => ?_
  exact stopsWith_require ⟨_, _, _, rfl, by decide⟩ _

theorem checkBlock_checked {block' : CBlock} (h : E.checkBlock block true = .ok block') :
    E.checkBlock block' true = .ok block' := by
  have hchecked : block'.fChecked = true := by
    unfold checkBlock at h
    split at h
    · rename_i hchecked
      cases h
      exact hchecked
    · obtain ⟨_, -, h⟩ := bind_eq_ok.mp h
      cases h
      exact Bool.or_true _
  rw [checkBlock, if_pos hchecked]
  rfl

theorem checkBlock_stops (block : CBlock) (fCheckPOW : Bool) :
    StopsWith BlockRejected (E.checkBlock block fCheckPOW) := by
  refine stopsWith_ite (stopsWith_ok _ _) ?_
  exact stopsWith_bind (E.checkBlockRules_stops block fCheckPOW) fun _ _ => stopsWith_ok _ _

end NodeEnv

end VBitcoin
