import VBitcoin.Compressor

/-!
**Numbers of variable length have one encoding** (`WriteVarInt`, `ReadVarInt`,
`GetSizeOfVarInt` and the compact sizes, `serialize.h`) — one is subtracted from every group
but the last, so that no number has a longer form.  `groups` is the encoding without a type;
the array `tmp` has room for it (`fillTmp_eq`).
-/

namespace VBitcoin

open Codec

/-! ### The types -/

/-- Unsigned types by default, signed ones in the mode `NONNEGATIVE_SIGNED`. -/
inductive VarIntType where
  | uint32
  | uint64
  | int32
  | int64
  deriving DecidableEq, Repr

namespace VarIntType

def bits : VarIntType → Nat
  | uint32 | int32 => 32
  | uint64 | int64 => 64

/-- The bits of the largest number of the type. -/
def valueBits : VarIntType → Nat
  | uint32 => 32
  | uint64 => 64
  | int32 => 31
  | int64 => 63

def max (t : VarIntType) : Nat := 2 ^ t.valueBits - 1

theorem max_lt (t : VarIntType) : t.max < 2 ^ t.valueBits :=
  Nat.sub_lt (Nat.two_pow_pos _) Nat.one_pos

end VarIntType

/-- Fills `tmp`; a write behind its end is undefined. -/
def fillTmp : Nat → Nat → Nat → Run Bytes
  | 0, _, _ => .error (.undefined "tmp[len]")
  | room + 1, n, highBit =>
    if n ≤ 0x7f then pure [UInt8.ofNat (n % 128 + highBit)]
    else do
      let tmp ← fillTmp room (n / 128 - 1) 128
      pure (UInt8.ofNat (n % 128 + highBit) :: tmp)

def writeVarIntAs (t : VarIntType) (n : Nat) : Run Bytes := do
  let tmp ← fillTmp ((t.bits + 6) / 7) n 0
  pure tmp.reverse

def readVarIntAs (t : VarIntType) : ByteReader Nat := readVarIntFrom t.max 0

def getSizeOfVarInt (n : Nat) : Nat :=
  if n ≤ 0x7f then 1 else getSizeOfVarInt (n / 128 - 1) + 1
termination_by n

/-! ### The encoding -/

/-- Seven bits each, the last first; all but it have the high bit. -/
def groups (n highBit : Nat) : Bytes :=
  UInt8.ofNat (n % 128 + highBit) :: if n ≤ 0x7f then [] else groups (n / 128 - 1) 128
termination_by n

variable {n : Nat} {t : VarIntType}

theorem groups_of_le (h : n ≤ 0x7f) (highBit : Nat) :
    groups n highBit = [UInt8.ofNat (n + highBit)] := by
  rw [groups, if_pos h, Nat.mod_eq_of_lt (by omega)]

theorem groups_append (n d highBit : Nat) (hd : d < 128) :
    groups ((n + 1) * 128 + d) highBit = UInt8.ofNat (d + highBit) :: groups n 128 := by
  have hlow : ((n + 1) * 128 + d) % 128 = d := by omega
  have hrest : ((n + 1) * 128 + d) / 128 - 1 = n := by omega
  rw [groups, if_neg (by omega), hlow, hrest]

theorem length_groups (n : Nat) : ∀ highBit, (groups n highBit).length = getSizeOfVarInt n := by
  induction n using getSizeOfVarInt.induct with
  | case1 n hsmall =>
    intro highBit
    rw [groups_of_le hsmall, getSizeOfVarInt, if_pos hsmall]
    rfl
  | case2 n hlarge ih =>
    intro highBit
    rw [groups, getSizeOfVarInt, if_neg hlarge, if_neg hlarge, List.length_cons, ih]

theorem div_lt_of_lt {room : Nat} (h : n < 2 ^ (7 * (room + 1))) :
    n / 128 - 1 < 2 ^ (7 * room) := by
  have hpow : 2 ^ (7 * (room + 1)) = 128 * 2 ^ (7 * room) := by
    rw [Nat.mul_succ, Nat.pow_add, Nat.mul_comm]
  have := Nat.two_pow_pos (7 * room)
  omega

theorem fillTmp_eq : ∀ {room n : Nat}, 0 < room → n < 2 ^ (7 * room) → ∀ highBit,
    fillTmp room n highBit = .ok (groups n highBit) := by
  intro room
  induction room with
  | zero =>
    intro n hroom
    cases hroom
  | succ room ih =>
    intro n _ hn highBit
    rw [fillTmp, groups]
    by_cases hsmall : n ≤ 0x7f
    · rw [if_pos hsmall, if_pos hsmall]
      rfl
    · have hroom : 0 < room := by
        rcases Nat.eq_zero_or_pos room with rfl | hpos
        · rw [Nat.zero_add, Nat.mul_one] at hn
          omega
        · exact hpos
      rw [if_neg hsmall, if_neg hsmall, ih hroom (div_lt_of_lt hn)]
      rfl

theorem varIntDigits_of_fillTmp : ∀ {room n highBit : Nat} {tmp : Bytes},
    fillTmp room n highBit = .ok tmp → varIntDigits room n highBit = tmp := by
  intro room
  induction room with
  | zero =>
    intro n highBit tmp h
    cases h
  | succ room ih =>
    intro n highBit tmp h
    rw [fillTmp] at h
    rw [varIntDigits]
    by_cases hsmall : n ≤ 0x7f
    · rw [if_pos hsmall, pure_eq_ok_iff] at h
      rw [if_pos hsmall, h]
    · rw [if_neg hsmall, bind_eq_ok] at h
      obtain ⟨rest, hrest, htmp⟩ := h
      rw [if_neg hsmall, ih hrest]
      exact pure_eq_ok_iff.mp htmp

/-! ### Writing and reading back -/

theorem writeVarIntAs_eq (hn : n ≤ t.max) :
    writeVarIntAs t n = .ok (groups n 0).reverse := by
  have hlt : n < 2 ^ (7 * ((t.bits + 6) / 7)) := by
    have hbits : t.valueBits ≤ 7 * ((t.bits + 6) / 7) := by cases t <;> decide
    exact lt_of_le_of_lt hn (t.max_lt.trans_le (Nat.pow_le_pow_right (by decide) hbits))
  rw [writeVarIntAs, fillTmp_eq (by cases t <;> decide) hlt]
  rfl

theorem reads_varIntAs (hn : n ≤ t.max) :
    Reads (readVarIntAs t) (groups n 0).reverse n := by
  have hlt : n < 2 ^ t.valueBits := lt_of_le_of_lt hn t.max_lt
  have hfits : n < 2 ^ (7 * ((t.valueBits + 6) / 7)) :=
    hlt.trans_le (Nat.pow_le_pow_right (by decide) (by omega))
  have hdigits : writeVarInt t.valueBits n = (groups n 0).reverse := by
    rw [writeVarInt, varIntDigits_of_fillTmp (fillTmp_eq (by cases t <;> decide) hfits 0)]
  rw [← hdigits]
  exact reads_varInt (by cases t <;> decide) hlt

/-! ### What is accepted -/

/-- The bytes that `ReadVarInt` has used up when its variable is `n`. -/
def bytesBefore : Nat → Bytes
  | 0 => []
  | n + 1 => (groups n 128).reverse

theorem bytesBefore_succ (n : Nat) (chData : UInt8) (hhigh : 128 ≤ chData.toNat) :
    bytesBefore (n * 128 + chData.toNat % 128 + 1) = bytesBefore n ++ [chData] := by
  have hbyte : UInt8.ofNat (chData.toNat % 128 + 128) = chData := by
    have := chData.toNat_lt
    rw [show chData.toNat % 128 + 128 = chData.toNat by omega, UInt8.ofNat_toNat]
  have hlow : chData.toNat % 128 < 128 := Nat.mod_lt _ (by decide)
  rw [bytesBefore]
  cases n with
  | zero =>
    rw [Nat.zero_mul, Nat.zero_add, groups_of_le (by omega), hbyte]
    rfl
  | succ n =>
    rw [groups_append n _ 128 hlow, hbyte, List.reverse_cons]
    rfl

theorem groups_last (n : Nat) (chData : UInt8) (hlow : chData.toNat < 128) :
    (groups (n * 128 + chData.toNat) 0).reverse = bytesBefore n ++ [chData] := by
  have hbyte : UInt8.ofNat (chData.toNat + 0) = chData := by
    rw [Nat.add_zero, UInt8.ofNat_toNat]
  cases n with
  | zero =>
    rw [Nat.zero_mul, Nat.zero_add, groups_of_le (by omega), hbyte]
    rfl
  | succ n =>
    rw [groups_append n _ 0 hlow, hbyte, List.reverse_cons]
    rfl

/-- The stream ends, or the number is too large for the type. -/
def varIntErrors : List String := [endOfFile, "ReadVarInt(): size too large"]

theorem readVarIntFrom_cases {max : Nat} (hmax : max % 128 = 127) (input : Bytes) : ∀ n,
    (∃ e ∈ varIntErrors, readVarIntFrom max n input = .error e) ∨
      ∃ value used rest, readVarIntFrom max n input = .ok (value, rest) ∧ input = used ++ rest ∧
        value ≤ max ∧ bytesBefore n ++ used = (groups value 0).reverse := by
  induction input with
  | nil =>
    intro n
    exact Or.inl ⟨endOfFile, List.mem_cons_self, rfl⟩
  | cons chData input ih =>
    intro n
    have htooLarge : "ReadVarInt(): size too large" ∈ varIntErrors :=
      List.mem_cons_of_mem _ List.mem_cons_self
    rw [readVarIntFrom]
    by_cases hlarge : max / 128 < n
    · rw [if_pos hlarge]
      exact Or.inl ⟨_, htooLarge, rfl⟩
    rw [if_neg hlarge]
    by_cases hhigh : 128 ≤ chData.toNat
    · rw [if_pos hhigh]
      by_cases hfull : n * 128 + chData.toNat % 128 = max
      · rw [if_pos hfull]
        exact Or.inl ⟨_, htooLarge, rfl⟩
      rw [if_neg hfull]
      rcases ih (n * 128 + chData.toNat % 128 + 1) with herror | ⟨value, used, rest, hrun, hinput,
        hle, hbytes⟩
      · exact Or.inl herror
      · refine Or.inr ⟨value, chData :: used, rest, hrun, by rw [hinput]; rfl, hle, ?_⟩
        rw [← hbytes, bytesBefore_succ n chData hhigh, List.append_assoc, List.singleton_append]
    · rw [if_neg hhigh]
      have hmod : chData.toNat % 128 = chData.toNat := Nat.mod_eq_of_lt (by omega)
      refine Or.inr ⟨_, [chData], input, rfl, rfl, ?_, ?_⟩
      · omega
      · rw [hmod, groups_last n chData (by omega)]

theorem readVarIntAs_cases (t : VarIntType) (input : Bytes) :
    (∃ e ∈ varIntErrors, (readVarIntAs t).run input = .error e) ∨
      ∃ n used rest, (readVarIntAs t).run input = .ok (n, rest) ∧ input = used ++ rest ∧
        n ≤ t.max ∧ writeVarIntAs t n = .ok used := by
  rcases readVarIntFrom_cases (by cases t <;> decide : t.max % 128 = 127) input 0 with
    herror | ⟨n, used, rest, hrun, hinput, hle, hbytes⟩
  · exact Or.inl herror
  · refine Or.inr ⟨n, used, rest, hrun, hinput, hle, ?_⟩
    rw [writeVarIntAs_eq hle, ← hbytes]
    rfl

theorem readCompactSize_cases (input : Bytes) :
    (∃ e, readCompactSize.run input = .error e) ∨
      ∃ n used rest, readCompactSize.run input = .ok (n, rest) ∧ input = used ++ rest ∧
        n ≤ MAX_SIZE ∧ writeCompactSize n = used := by
  cases hrun : readCompactSize.run input with
  | error e => exact Or.inl ⟨e, rfl⟩
  | ok result =>
    obtain ⟨n, rest⟩ := result
    obtain ⟨used, hinput, hused, hle⟩ := yields_compactSize input n rest hrun
    exact Or.inr ⟨n, used, rest, rfl, hinput, hle, hused.symm⟩

/-- **Every number has exactly one encoding**, which fits into `tmp` and has the length of
    `GetSizeOfVarInt`. -/
theorem numbers_have_one_encoding :
    (∀ t : VarIntType,
      (∀ n ≤ t.max, ∃ written, writeVarIntAs t n = .ok written ∧
        written.length = getSizeOfVarInt n ∧ Reads (readVarIntAs t) written n) ∧
      ∀ input, (∃ e ∈ varIntErrors, (readVarIntAs t).run input = .error e) ∨
        ∃ n used rest, (readVarIntAs t).run input = .ok (n, rest) ∧ input = used ++ rest ∧
          n ≤ t.max ∧ writeVarIntAs t n = .ok used) ∧
    (∀ n ≤ MAX_SIZE, (writeCompactSize n).length = sizeOfCompactSize n ∧
      Reads readCompactSize (writeCompactSize n) n) ∧
    ∀ input, (∃ e, readCompactSize.run input = .error e) ∨
      ∃ n used rest, readCompactSize.run input = .ok (n, rest) ∧ input = used ++ rest ∧
        n ≤ MAX_SIZE ∧ writeCompactSize n = used := by
  refine ⟨fun t => ⟨?_, readVarIntAs_cases t⟩, ?_, readCompactSize_cases⟩
  · intro n hn
    refine ⟨_, writeVarIntAs_eq hn, ?_, reads_varIntAs hn⟩
    rw [List.length_reverse, length_groups]
  · intro n hn
    exact ⟨writeCompactSize_length n, reads_compactSize hn⟩

/-- The largest signed number of 64 bits, and the largest size. -/
theorem largest_numbers_encoded :
    (∃ written, writeVarIntAs .int64 (2 ^ 63 - 1) = .ok written ∧
      written.length = getSizeOfVarInt (2 ^ 63 - 1) ∧
      Reads (readVarIntAs .int64) written (2 ^ 63 - 1)) ∧
    (writeCompactSize MAX_SIZE).length = 5 ∧
      Reads readCompactSize (writeCompactSize MAX_SIZE) MAX_SIZE :=
  ⟨(numbers_have_one_encoding.1 .int64).1 _ (by decide),
    numbers_have_one_encoding.2.1 MAX_SIZE (le_refl _)⟩

-- the last line of the table in `serialize.h`
example : writeVarIntAs .uint64 (2 ^ 32) = .ok [0x8e, 0xfe, 0xfe, 0xff, 0x00] := by decide

end VBitcoin
