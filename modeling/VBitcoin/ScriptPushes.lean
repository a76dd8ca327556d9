import VBitcoin.EvalScript
import VBitcoin.Unserialize

/-!
**Pushes are read as they were written, and the shortest ones are minimal** (`script/script.h`,
`script/script.cpp`, `script/interpreter.cpp`) — `operator<<` against `GetScriptOp`, and
`CheckMinimalPush` against the lengths of all elements that push the same data.
-/

namespace VBitcoin

open List

/-! ### One push -/

/-- The bytes between the opcode of a push and its data. -/
def lengthField (opcode : UInt8) (nSize : Nat) : Bytes :=
  if opcode < OP_PUSHDATA1 then [] else leBytes (pushDataWidth opcode) nSize

def CanPush (opcode : UInt8) (nSize : Nat) : Prop :=
  if opcode < OP_PUSHDATA1 then nSize = opcode.toNat else nSize < 256 ^ pushDataWidth opcode

variable {opcode : UInt8} {data : Bytes} {script pc : CScript} {nSize : Nat}

theorem pushOperand_iff {operand : CScript} : pushOperand opcode pc = some (nSize, operand) ↔
    CanPush opcode nSize ∧ pc = lengthField opcode nSize ++ operand := by
  unfold pushOperand CanPush lengthField
  split
  · grind
  · have hfield : (leBytes (pushDataWidth opcode) nSize).length = pushDataWidth opcode :=
      leBytes_length _ _
    split
    · grind
    · have hwidth : (pc.take (pushDataWidth opcode)).length = pushDataWidth opcode := by grind
      constructor
      · intro h
        obtain ⟨rfl, rfl⟩ := Prod.mk.inj (Option.some.inj h)
        have hlt := readLE_lt (pc.take (pushDataWidth opcode))
        have hback := leBytes_readLE (pc.take (pushDataWidth opcode))
        rw [hwidth] at hlt hback
        exact ⟨hlt, by rw [hback, take_append_drop]⟩
      · rintro ⟨hlt, rfl⟩
        rw [take_left' hfield, drop_left' hfield, readLE_leBytes hlt]

/-- **`GetScriptOp` reads a push just where one was written.** -/
theorem getScriptOp_iff (hpush : opcode ≤ OP_PUSHDATA4) :
    getScriptOp script = some (opcode, data, pc) ↔ CanPush opcode data.length ∧
      script = opcode :: (lengthField opcode data.length ++ (data ++ pc)) := by
  cases script with
  | nil => simp [getScriptOp]
  | cons first rest =>
    rw [getScriptOp]
    constructor
    · intro h
      split_ifs at h with hfirst
      · split at h
        · cases h
        · rename_i nSize operand hoperand
          obtain ⟨hcan, rfl⟩ := pushOperand_iff.mp hoperand
          split_ifs at h with hshort
          cases h
          have hlength : (operand.take nSize).length = nSize := by grind
          rw [hlength, take_append_drop]
          exact ⟨hcan, rfl⟩
      · cases h
        exact absurd hpush hfirst
    · rintro ⟨hcan, heq⟩
      obtain ⟨rfl, rfl⟩ := List.cons.inj heq
      rw [if_pos hpush, pushOperand_iff.mpr ⟨hcan, rfl⟩]
      simp

/-! ### What `operator<<` appends -/

inductive Appended where
  | opcode (opcode : UInt8)
  | data (b : Bytes)
  deriving DecidableEq, Repr

namespace Appended

def bytes : Appended → CScript
  | .opcode opcode => [opcode]
  | .data b => pushBytes b

/-- The instruction that was meant; that of data has the opcode that `operator<<` writes. -/
def instruction : Appended → UInt8 × Bytes
  | .opcode opcode => (opcode, [])
  | .data b => ((pushBytes b).headD OP_0, b)

/-- An opcode that takes no operand, or data whose size has four bytes. -/
def Readable : Appended → Prop
  | .opcode opcode => opcode = OP_0 ∨ OP_PUSHDATA4 < opcode
  | .data b => b.length < 2 ^ 32

end Appended

/-- The script after `script << element` for each of the elements. -/
def appendAll (elements : List Appended) : CScript :=
  elements.foldl (fun script element => script ++ element.bytes) []

theorem pushBytes_spec (h : data.length < 2 ^ 32) :
    ∃ opcode ≤ OP_PUSHDATA4, CanPush opcode data.length ∧
      pushBytes data = opcode :: (lengthField opcode data.length ++ data) := by
  have h76 : OP_PUSHDATA1.toNat = 76 := rfl
  unfold pushBytes
  split_ifs with hdirect hone htwo
  · have hbyte : data.length < 256 := by omega
    have hsize : (UInt8.ofNat data.length).toNat = data.length := UInt8.toNat_ofNat_of_lt' hbyte
    have hlt : UInt8.ofNat data.length < OP_PUSHDATA1 := by
      rw [UInt8.lt_iff_toNat_lt, hsize]
      exact hdirect
    refine ⟨_, UInt8.le_trans (UInt8.le_of_lt hlt) (by decide), ?_, ?_⟩
    · rw [CanPush, if_pos hlt, hsize]
    · rw [lengthField, if_pos hlt, nil_append]
  · have hfield : leBytes 1 data.length = [UInt8.ofNat data.length] := by
      rw [leBytes, leBytes, Nat.mod_eq_of_lt (by omega)]
    refine ⟨OP_PUSHDATA1, by decide, Nat.lt_succ_of_le hone, ?_⟩
    exact congrArg (OP_PUSHDATA1 :: · ++ data) hfield.symm
  · exact ⟨OP_PUSHDATA2, by decide, Nat.lt_succ_of_le htwo, rfl⟩
  · exact ⟨OP_PUSHDATA4, by decide, h, rfl⟩

theorem getScriptOp_bytes {element : Appended} (h : element.Readable) (pc : CScript) :
    getScriptOp (element.bytes ++ pc) =
      some (element.instruction.1, element.instruction.2, pc) := by
  cases element with
  | opcode opcode =>
    rcases h with rfl | hlarge
    · exact (getScriptOp_iff (by decide)).mpr ⟨rfl, rfl⟩
    · exact getScriptOp_opcode (UInt8.not_le.mpr hlarge) pc
  | data b =>
    obtain ⟨opcode, hpush, hcan, hbytes⟩ := pushBytes_spec h
    have hfirst : (pushBytes b).headD OP_0 = opcode := by rw [hbytes, headD_cons]
    rw [Appended.instruction, hfirst]
    refine (getScriptOp_iff hpush).mpr ⟨hcan, ?_⟩
    rw [Appended.bytes, hbytes, cons_append, append_assoc]

theorem scriptOps_flatMap : ∀ {elements : List Appended},
    (∀ element ∈ elements, element.Readable) →
      scriptOps (elements.flatMap Appended.bytes) = (elements.map Appended.instruction, true)
  | [], _ => rfl
  | element :: elements, h => by
    obtain ⟨hfirst, hrest⟩ := forall_mem_cons.mp h
    rw [flatMap_cons, scriptOps_cons (getScriptOp_bytes hfirst _), scriptOps_flatMap hrest]
    rfl

/-! ### Minimal pushes -/

/-- The script elements that push `d`: a number, or a push with its data. -/
def Pushes (element : CScript) (d : Bytes) : Prop :=
  (∃ opcode, isPushNumber opcode = true ∧ element = [opcode] ∧ pushedNumber opcode = d) ∨
    ∃ opcode ≤ OP_PUSHDATA4, getScriptOp element = some (opcode, d, [])

/-- The data that `OP_1NEGATE` and `OP_1` … `OP_16` push. -/
def isSmallNumber (d : Bytes) : Bool :=
  d.length = 1 ∧ (1 ≤ d.getD 0 0 ∧ d.getD 0 0 ≤ 16 ∨ d.getD 0 0 = 0x81)

theorem isSmallNumber_pushedNumber : ∀ opcode, isPushNumber opcode = true →
    isSmallNumber (pushedNumber opcode) = true := by
  decide +kernel

theorem exists_pushedNumber : ∀ byte : UInt8, isSmallNumber [byte] = true →
    ∃ opcode, isPushNumber opcode = true ∧ pushedNumber opcode = [byte] := by
  decide +kernel

theorem pushData_cases : ∀ opcode ≤ OP_PUSHDATA4, ¬ opcode < OP_PUSHDATA1 →
    opcode = OP_PUSHDATA1 ∨ opcode = OP_PUSHDATA2 ∨ opcode = OP_PUSHDATA4 := by
  decide +kernel

/-- The four kinds of pushes and their lengths. -/
theorem push_cases (hpush : opcode ≤ OP_PUSHDATA4)
    (h : getScriptOp script = some (opcode, data, [])) :
    (opcode.toNat = data.length ∧ data.length < 76 ∧ script.length = 1 + data.length) ∨
      (opcode.toNat = 76 ∧ data.length < 256 ∧ script.length = 2 + data.length) ∨
      (opcode.toNat = 77 ∧ data.length < 65536 ∧ script.length = 3 + data.length) ∨
      (opcode.toNat = 78 ∧ data.length < 2 ^ 32 ∧ script.length = 5 + data.length) := by
  obtain ⟨hcan, rfl⟩ := (getScriptOp_iff hpush).mp h
  by_cases hdirect : opcode < OP_PUSHDATA1
  · rw [CanPush, if_pos hdirect] at hcan
    have hlt : opcode.toNat < 76 := UInt8.lt_iff_toNat_lt.mp hdirect
    exact .inl ⟨hcan.symm, hcan ▸ hlt, by simp [lengthField, if_pos hdirect, Nat.add_comm]⟩
  · have hwidth : (lengthField opcode data.length).length = pushDataWidth opcode := by
      rw [lengthField, if_neg hdirect, leBytes_length]
    simp only [length_cons, length_append, hwidth, append_nil]
    rcases pushData_cases opcode hpush hdirect with rfl | rfl | rfl
    · exact .inr (.inl ⟨rfl, hcan, by change 1 + data.length + 1 = _; omega⟩)
    · exact .inr (.inr (.inl ⟨rfl, hcan, by change 2 + data.length + 1 = _; omega⟩))
    · exact .inr (.inr (.inr ⟨rfl, hcan, by change 4 + data.length + 1 = _; omega⟩))

theorem checkMinimalPush_iff_size (h : isSmallNumber data = false) :
    checkMinimalPush data opcode = true ↔
      (data.length ≤ 75 → opcode.toNat = data.length) ∧
      (75 < data.length → data.length ≤ 255 → opcode.toNat = 76) ∧
      (255 < data.length → data.length ≤ 65535 → opcode.toNat = 77) := by
  have h0 : opcode = OP_0 ↔ opcode.toNat = 0 := UInt8.toNat_inj.symm
  have h1 : opcode = OP_PUSHDATA1 ↔ opcode.toNat = 76 := UInt8.toNat_inj.symm
  have h2 : opcode = OP_PUSHDATA2 ↔ opcode.toNat = 77 := UInt8.toNat_inj.symm
  unfold isSmallNumber at h
  unfold checkMinimalPush
  grind

theorem length_pushBytes : (pushBytes data).length = data.length +
    if data.length < 76 then 1
    else if data.length ≤ 255 then 2 else if data.length ≤ 65535 then 3 else 5 := by
  have h76 : OP_PUSHDATA1.toNat = 76 := rfl
  rw [pushBytes, h76]
  split_ifs <;> simp <;> omega

/-- **A push is minimal just when nothing shorter pushes the same data.** -/
theorem checkMinimalPush_iff (hpush : opcode ≤ OP_PUSHDATA4)
    (h : getScriptOp script = some (opcode, data, [])) : checkMinimalPush data opcode = true ↔
      ∀ other, Pushes other data → script.length ≤ other.length := by
  have hcases := push_cases hpush h
  cases hsmall : isSmallNumber data with
  | true =>
    -- the opcode for the number is shorter than any push of it
    have hone : data.length = 1 := by grind [isSmallNumber]
    have hrefused : checkMinimalPush data opcode = false := by
      grind [isSmallNumber, checkMinimalPush]
    rw [hrefused]
    refine iff_of_false Bool.false_ne_true fun hall => ?_
    obtain ⟨byte, rfl⟩ := length_eq_one_iff.mp hone
    obtain ⟨number, hnumber, hpushed⟩ := exists_pushedNumber byte hsmall
    have hle := hall [number] (.inl ⟨number, hnumber, rfl, hpushed⟩)
    rw [length_singleton] at hle hcases
    omega
  | false =>
    rw [checkMinimalPush_iff_size hsmall]
    constructor
    · rintro hcheck other (⟨number, hnumber, -, rfl⟩ | ⟨opcode', hpush', h'⟩)
      · rw [isSmallNumber_pushedNumber number hnumber] at hsmall
        cases hsmall
      · have hcases' := push_cases hpush' h'
        omega
    · intro hall
      obtain ⟨opcode', hpush', hcan', hbytes⟩ := @pushBytes_spec data (by omega)
      have hle := hall (pushBytes data) (.inr ⟨opcode', hpush', (getScriptOp_iff hpush').mpr
        ⟨hcan', by rw [append_nil, hbytes]⟩⟩)
      rw [length_pushBytes] at hle
      split_ifs at hle <;> omega

/-- **Scripts are read as they were written**, unless an opcode that takes an operand was
    appended without one; and a push is minimal just when nothing shorter pushes the same. -/
theorem script_pushes_agree :
    (∀ elements : List Appended, (∀ element ∈ elements, element.Readable) →
      scriptOps (appendAll elements) = (elements.map Appended.instruction, true)) ∧
    ∀ (script : CScript) (opcode : UInt8) (data : Bytes), opcode ≤ OP_PUSHDATA4 →
      getScriptOp script = some (opcode, data, []) → (checkMinimalPush data opcode = true ↔
        ∀ other, Pushes other data → script.length ≤ other.length) := by
  refine ⟨fun elements h => ?_, fun script opcode data hpush h => checkMinimalPush_iff hpush h⟩
  rw [appendAll, ← flatMap_eq_foldl]
  exact scriptOps_flatMap h

/-- A `PUSHDATA1` that is appended as an opcode takes what follows as its operand. -/
theorem bare_pushdata_swallows : ¬ ∀ elements : List Appended,
    (∀ b, .data b ∈ elements → b.length < 2 ^ 32) →
      scriptOps (appendAll elements) = (elements.map Appended.instruction, true) := by
  intro h
  have hread := h [.opcode OP_PUSHDATA1, .data [OP_1]] (by simp)
  revert hread
  decide

end VBitcoin
