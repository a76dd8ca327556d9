import VBitcoin.Environment
import VBitcoin.Unserialize

/-!
**The compact format of outputs** — variable-length integers (`serialize.h`) and the
compression of amounts and scripts (`compressor.cpp`).  For a script with an uncompressed key
the round trip rests on the library, which must give back the key that was compressed
(`Secp256k1.Inverts`).
-/

namespace VBitcoin

open Codec List

/-! ### Variable-length integers -/

/-- The array `tmp`, low bits first; its capacity bounds the loop. -/
def varIntDigits : Nat → Nat → Nat → Bytes
  | 0, _, _ => []
  | capacity + 1, n, highBit =>
    UInt8.ofNat (n % 128 + highBit) ::
      (if n ≤ 0x7f then [] else varIntDigits capacity (n / 128 - 1) 128)

def writeVarInt (width n : Nat) : Bytes := (varIntDigits ((width + 6) / 7) n 0).reverse

def readVarIntFrom (max : Nat) : Nat → ByteReader Nat
  | _, [] => .error endOfFile
  | n, chData :: rest =>
    if max / 128 < n then .error "ReadVarInt(): size too large"
    else if 128 ≤ chData.toNat then
      if n * 128 + chData.toNat % 128 = max then .error "ReadVarInt(): size too large"
      else readVarIntFrom max (n * 128 + chData.toNat % 128 + 1) rest
    else .ok (n * 128 + chData.toNat % 128, rest)

def readVarInt (width : Nat) : ByteReader Nat := readVarIntFrom (2 ^ width - 1) 0

variable {max n : Nat} {script : CScript} {K : Secp256k1}

theorem readVarIntFrom_last {d : Nat} (hn : n ≤ max / 128) (hd : d < 128) (rest : Bytes) :
    readVarIntFrom max n (UInt8.ofNat d :: rest) = .ok (n * 128 + d, rest) := by
  have hbyte : (UInt8.ofNat d).toNat = d := toNat_ofNat_of_lt (by omega)
  rw [readVarIntFrom, hbyte, if_neg (by omega), if_neg (by omega), Nat.mod_eq_of_lt hd]

theorem readVarIntFrom_more {d : Nat} (hn : n ≤ max / 128) (hd : d < 128)
    (hmax : n * 128 + d ≠ max) (rest : Bytes) :
    readVarIntFrom max n (UInt8.ofNat (d + 128) :: rest) =
      readVarIntFrom max (n * 128 + d + 1) rest := by
  have hbyte : (UInt8.ofNat (d + 128)).toNat = d + 128 := toNat_ofNat_of_lt (by omega)
  have hlow : (d + 128) % 128 = d := by omega
  rw [readVarIntFrom, hbyte, hlow, if_neg (by omega), if_pos (by omega), if_neg hmax]

theorem readVarIntFrom_digits : ∀ {capacity n : Nat}, n < 2 ^ (7 * (capacity + 1)) →
    n < max → ∀ rest, readVarIntFrom max 0 ((varIntDigits (capacity + 1) n 128).reverse ++ rest) =
      readVarIntFrom max (n + 1) rest := by
  intro capacity
  induction capacity with
  | zero =>
    intro n hn hmax rest
    have hn : n < 128 := hn
    rw [varIntDigits, if_pos (by omega), Nat.mod_eq_of_lt hn]
    have h := readVarIntFrom_more (Nat.zero_le (max / 128)) hn (by omega) rest
    rwa [Nat.zero_mul, Nat.zero_add] at h
  | succ capacity ih =>
    intro n hn hmax rest
    rw [varIntDigits]
    by_cases hsmall : n ≤ 0x7f
    · rw [if_pos hsmall, Nat.mod_eq_of_lt (by omega)]
      have h := readVarIntFrom_more (Nat.zero_le (max / 128)) (d := n) (by omega) (by omega) rest
      rwa [Nat.zero_mul, Nat.zero_add] at h
    · have hpow : 2 ^ (7 * (capacity + 1 + 1)) = 128 * 2 ^ (7 * (capacity + 1)) := by
        rw [Nat.mul_succ, Nat.pow_add, Nat.mul_comm]
      have hdiv := Nat.div_add_mod n 128
      rw [if_neg hsmall, reverse_cons, append_assoc, ih (by omega) (by omega),
        singleton_append, Nat.sub_add_cancel (by omega),
        readVarIntFrom_more (by omega) (by omega) (by omega)]
      rw [Nat.mul_comm (n / 128) 128, hdiv]

/-- **A number is read back**, if it fits its type. -/
theorem reads_varInt {width : Nat} (hwidth : 7 ≤ width) (hn : n < 2 ^ width) :
    Reads (readVarInt width) (writeVarInt width n) n := by
  intro rest
  obtain ⟨capacity, hcapacity⟩ : ∃ capacity, (width + 6) / 7 = capacity + 1 :=
    ⟨(width + 6) / 7 - 1, by omega⟩
  change readVarIntFrom (2 ^ width - 1) 0 (writeVarInt width n ++ rest) = _
  rw [writeVarInt, hcapacity, varIntDigits]
  by_cases hsmall : n ≤ 0x7f
  · rw [if_pos hsmall, Nat.mod_eq_of_lt (by omega)]
    have h := readVarIntFrom_last (Nat.zero_le ((2 ^ width - 1) / 128)) (d := n) (by omega) rest
    rwa [Nat.zero_mul, Nat.zero_add] at h
  · -- two bytes or more, so that the width is above seven bits
    cases capacity with
    | zero =>
      have hle : 2 ^ width ≤ 2 ^ 7 := Nat.pow_le_pow_right (by omega) (by omega)
      omega
    | succ capacity =>
      have hle : 2 ^ width ≤ 2 ^ (7 * (capacity + 1 + 1)) :=
        Nat.pow_le_pow_right (by omega) (by omega)
      have hpow : 2 ^ (7 * (capacity + 1 + 1)) = 128 * 2 ^ (7 * (capacity + 1)) := by
        rw [Nat.mul_succ, Nat.pow_add, Nat.mul_comm]
      have hdiv := Nat.div_add_mod n 128
      rw [if_neg hsmall, reverse_cons, append_assoc,
        readVarIntFrom_digits (by omega) (by omega), singleton_append,
        Nat.sub_add_cancel (by omega), Nat.add_zero,
        readVarIntFrom_last (by omega) (by omega), Nat.mul_comm (n / 128) 128, hdiv]

/-! ### Amounts -/

/-- The loop of `CompressAmount`: trailing zeros are divided off, nine at most. -/
def stripZeros : Nat → Nat → Nat → Nat × Nat
  | 0, n, e => (n, e)
  | left + 1, n, e => if n % 10 = 0 then stripZeros left (n / 10) (e + 1) else (n, e)

def compressAmount (nAmount : Nat) : Nat :=
  if nAmount = 0 then 0
  else
    let (n, e) := stripZeros 9 nAmount 0
    (if e < 9 then 1 + (n / 10 * 9 + n % 10 - 1) * 10 + e else 1 + (n - 1) * 10 + 9) % 2 ^ 64

def decompressAmount (x : Nat) : Nat :=
  if x = 0 then 0
  else
    let e := (x - 1) % 10
    let x := (x - 1) / 10
    (if e < 9 then x / 9 * 10 + (x % 9 + 1) else x + 1) * 10 ^ e % 2 ^ 64

/-- `m` ends in zero only after nine zeros were divided off. -/
theorem stripZeros_spec : ∀ (left n e : Nat),
    ∃ k, (stripZeros left n e).2 = e + k ∧ k ≤ left ∧ (stripZeros left n e).1 * 10 ^ k = n ∧
      (k < left → (stripZeros left n e).1 % 10 ≠ 0)
  | 0, n, e => ⟨0, rfl, Nat.le_refl 0, Nat.mul_one n, fun h => absurd h (Nat.lt_irrefl 0)⟩
  | left + 1, n, e => by
      by_cases hzero : n % 10 = 0
      · rw [stripZeros, if_pos hzero]
        obtain ⟨k, he, hk, hm, hlast⟩ := stripZeros_spec left (n / 10) (e + 1)
        refine ⟨k + 1, by omega, by omega, ?_, fun h => hlast (by omega)⟩
        rw [Nat.pow_succ, ← Nat.mul_assoc, hm]
        omega
      · rw [stripZeros, if_neg hzero]
        exact ⟨0, rfl, Nat.zero_le _, Nat.mul_one n, fun _ => hzero⟩

/-- What is found in `x` before the zeros are put back. -/
def decodedDigits (x : Nat) : Nat :=
  if (x - 1) % 10 < 9 then (x - 1) / 10 / 9 * 10 + ((x - 1) / 10 % 9 + 1) else (x - 1) / 10 + 1

/-- A compressed amount fits, and has the digits and the zeros of the amount. -/
theorem compressAmount_spec {nAmount : Nat} (h : nAmount ≤ MAX_MONEY.toNat) (hzero : nAmount ≠ 0) :
    0 < compressAmount nAmount ∧ compressAmount nAmount < 2 ^ 64 ∧
      decodedDigits (compressAmount nAmount) * 10 ^ ((compressAmount nAmount - 1) % 10) =
        nAmount := by
  have hmax : MAX_MONEY.toNat = 2100000000000000 := rfl
  obtain ⟨k, he, hk, hm, hlast⟩ := stripZeros_spec 9 nAmount 0
  rw [Nat.zero_add] at he
  unfold compressAmount
  rw [if_neg hzero]
  generalize stripZeros 9 nAmount 0 = stripped at he hm hlast ⊢
  obtain ⟨m, e⟩ := stripped
  simp only at he hm hlast ⊢
  subst he
  have hpow : 0 < 10 ^ e := Nat.pow_pos (by omega)
  have hle : m ≤ nAmount := by
    rw [← hm]
    exact Nat.le_mul_of_pos_right m hpow
  have hpos : 0 < m := by
    rcases Nat.eq_zero_or_pos m with rfl | hpos
    · rw [Nat.zero_mul] at hm
      exact absurd hm.symm hzero
    · exact hpos
  by_cases hnine : e < 9
  · have hd := hlast hnine
    rw [if_pos hnine, Nat.mod_eq_of_lt (by omega)]
    refine ⟨by omega, by omega, ?_⟩
    have hmod : (1 + (m / 10 * 9 + m % 10 - 1) * 10 + e - 1) % 10 = e := by omega
    have hdiv : (1 + (m / 10 * 9 + m % 10 - 1) * 10 + e - 1) / 10 = m / 10 * 9 + m % 10 - 1 := by
      omega
    have hback : (m / 10 * 9 + m % 10 - 1) / 9 * 10 + ((m / 10 * 9 + m % 10 - 1) % 9 + 1) = m := by
      omega
    simp only [decodedDigits, hmod, hdiv, hback, if_pos hnine, hm]
  · have he : e = 9 := by omega
    subst he
    rw [if_neg hnine, Nat.mod_eq_of_lt (by omega)]
    refine ⟨by omega, by omega, ?_⟩
    have hmod : (1 + (m - 1) * 10 + 9 - 1) % 10 = 9 := by omega
    have hdiv : (1 + (m - 1) * 10 + 9 - 1) / 10 = m - 1 := by omega
    simp only [decodedDigits, hmod, hdiv, if_neg hnine, Nat.sub_add_cancel hpos, hm]

/-- **An amount of the money range is read back.** -/
theorem decompressAmount_compressAmount (nAmount : Nat) (h : nAmount ≤ MAX_MONEY.toNat) :
    decompressAmount (compressAmount nAmount) = nAmount ∧ compressAmount nAmount < 2 ^ 64 := by
  have hmax : MAX_MONEY.toNat = 2100000000000000 := rfl
  by_cases hzero : nAmount = 0
  · subst hzero
    exact ⟨rfl, by decide⟩
  · obtain ⟨hpos, hfits, hdigits⟩ := compressAmount_spec h hzero
    refine ⟨?_, hfits⟩
    rw [decompressAmount, if_neg (by omega)]
    change decodedDigits _ * 10 ^ _ % 2 ^ 64 = _
    rw [hdigits]
    exact Nat.mod_eq_of_lt (by omega)

/-! ### Scripts -/

def isToKeyID (script : CScript) : Option Bytes :=
  if script.length = 25 ∧ script.take 3 = [OP_DUP, OP_HASH160, 20] ∧
      script.drop 23 = [OP_EQUALVERIFY, OP_CHECKSIG] then
    some ((script.drop 3).take 20)
  else none

def isToScriptID (script : CScript) : Option Bytes :=
  if script.length = 23 ∧ script.take 2 = [OP_HASH160, 20] ∧ script.drop 22 = [OP_EQUAL] then
    some ((script.drop 2).take 20)
  else none

def isToPubKey (K : Secp256k1) (script : CScript) : Option Bytes :=
  if script.length = 35 ∧ script.take 1 = [33] ∧ script.drop 34 = [OP_CHECKSIG] ∧
      (script[1]? = some 0x02 ∨ script[1]? = some 0x03) then
    some ((script.drop 1).take 33)
  else if script.length = 67 ∧ script.take 1 = [65] ∧ script.drop 66 = [OP_CHECKSIG] ∧
      script[1]? = some 0x04 ∧ K.isFullyValid ((script.drop 1).take 65) = true then
    some ((script.drop 1).take 65)
  else none

def compressPubKey : Bytes → Option Bytes
  | first :: rest =>
    if first = 0x02 ∨ first = 0x03 then some (first :: rest.take 32)
    else if first = 0x04 then some ((0x04 ||| (rest.getD 63 0 &&& 0x01)) :: rest.take 32)
    else none
  | [] => none

def compressScript (K : Secp256k1) (script : CScript) : Option Bytes :=
  match isToKeyID script with
  | some keyID => some (0x00 :: keyID)
  | none =>
    match isToScriptID script with
    | some scriptID => some (0x01 :: scriptID)
    | none => (isToPubKey K script).bind compressPubKey

def getSpecialScriptSize (nSize : Nat) : Nat :=
  if nSize ≤ 1 then 20 else if nSize ≤ 5 then 32 else 0

/-- A key that cannot be decompressed leaves the script empty. -/
def decompressScript (K : Secp256k1) (nSize : Nat) (data : Bytes) : CScript :=
  match nSize with
  | 0 => [OP_DUP, OP_HASH160, 20] ++ (data ++ [OP_EQUALVERIFY, OP_CHECKSIG])
  | 1 => [OP_HASH160, 20] ++ (data ++ [OP_EQUAL])
  | 2 => [33] ++ (0x02 :: data ++ [OP_CHECKSIG])
  | 3 => [33] ++ (0x03 :: data ++ [OP_CHECKSIG])
  | 4 =>
    match K.decompress (0x02 :: data) with
    | some pubkey => [65] ++ (pubkey ++ [OP_CHECKSIG])
    | none => []
  | 5 =>
    match K.decompress (0x03 :: data) with
    | some pubkey => [65] ++ (pubkey ++ [OP_CHECKSIG])
    | none => []
  | _ => []

/-- The library gives back a valid key from one coordinate and a parity. -/
def Secp256k1.Inverts (K : Secp256k1) : Prop :=
  ∀ coords : Bytes, coords.length = 64 → K.isFullyValid (0x04 :: coords) = true →
    K.decompress ((0x02 ||| (coords.getD 63 0 &&& 0x01)) :: coords.take 32) =
      some (0x04 :: coords)

theorem split_three (l : Bytes) (i k : Nat) :
    l.take i ++ ((l.drop i).take k ++ l.drop (i + k)) = l := by
  rw [← drop_drop, take_append_drop, take_append_drop]

theorem and_one_cases (byte : UInt8) : byte &&& 0x01 = 0 ∨ byte &&& 0x01 = 1 := by
  have h : ∀ b : BitVec 8, b &&& 1 = 0 ∨ b &&& 1 = 1 := by decide
  rcases h byte.toBitVec with h | h
  · exact Or.inl (UInt8.toBitVec_inj.mp h)
  · exact Or.inr (UInt8.toBitVec_inj.mp h)

/-- A code below six, and data that make the script again. -/
structure Compressed (K : Secp256k1) (script : CScript) (out : Bytes) (code : Nat)
    (data : Bytes) : Prop where
  out_eq : out = UInt8.ofNat code :: data
  code_lt : code < 6
  length : data.length = getSpecialScriptSize code
  decompress : decompressScript K code data = script

theorem take_key {first : UInt8} (h : script[1]? = some first) (k : Nat) :
    (script.drop 1).take (k + 1) = first :: (script.drop 2).take k := by
  match script, h with
  | _ :: b :: rest, h =>
    cases h
    rfl

theorem compressPubKey_spec (hK : K.Inverts) {pubkey out : Bytes}
    (hpubkey : isToPubKey K script = some pubkey) (h : compressPubKey pubkey = some out) :
    ∃ code data, Compressed K script out code data := by
  unfold isToPubKey at hpubkey
  split at hpubkey
  · rename_i hshape
    obtain ⟨hlength, hfirst, hlast, hparity⟩ := hshape
    cases hpubkey
    have hsplit := split_three script 1 33
    have hdata : ((script.drop 2).take 32).length = 32 := by simp [hlength]
    rcases hparity with hparity | hparity
    all_goals
      rw [take_key hparity] at h hsplit
      simp only [compressPubKey, true_or, or_true, if_true, Option.some.injEq] at h
      rw [take_of_length_le (by omega)] at h
    · refine ⟨2, _, h.symm, by decide, hdata, ?_⟩
      rw [decompressScript, ← hfirst, ← hlast]
      exact hsplit
    · refine ⟨3, _, h.symm, by decide, hdata, ?_⟩
      rw [decompressScript, ← hfirst, ← hlast]
      exact hsplit
  · split at hpubkey
    · rename_i hshape
      obtain ⟨hlength, hfirst, hlast, hkind, hvalid⟩ := hshape
      cases hpubkey
      have hsplit := split_three script 1 65
      rw [take_key hkind] at h hsplit hvalid
      have hcoords : ((script.drop 2).take 64).length = 64 := by simp [hlength]
      have hinverts := hK _ hcoords hvalid
      generalize (script.drop 2).take 64 = coords at h hsplit hcoords hinverts
      have hdata : (coords.take 32).length = 32 := by simp [hcoords]
      rcases and_one_cases (coords.getD 63 0) with hodd | hodd
      all_goals
        rw [compressPubKey, if_neg (by decide), if_pos rfl, hodd, Option.some.injEq] at h
        rw [hodd] at hinverts
      · refine ⟨4, _, h.symm, by decide, hdata, ?_⟩
        rw [decompressScript, show (0x02 : UInt8) = 0x02 ||| 0 from rfl, hinverts, ← hfirst, ← hlast]
        exact hsplit
      · refine ⟨5, _, h.symm, by decide, hdata, ?_⟩
        rw [decompressScript, show (0x03 : UInt8) = 0x02 ||| 1 from rfl, hinverts, ← hfirst, ← hlast]
        exact hsplit
    · cases hpubkey

/-- **A compressed script can be decompressed.** -/
theorem compressScript_spec (hK : K.Inverts) {out : Bytes}
    (h : compressScript K script = some out) : ∃ code data, Compressed K script out code data := by
  unfold compressScript at h
  cases hkey : isToKeyID script with
  | some keyID =>
    rw [hkey] at h
    cases h
    unfold isToKeyID at hkey
    split at hkey
    · rename_i hshape
      cases hkey
      refine ⟨0, (script.drop 3).take 20, rfl, by decide, ?_, ?_⟩
      · simp [hshape.1, getSpecialScriptSize]
      · rw [decompressScript, ← hshape.2.1, ← hshape.2.2]
        exact split_three script 3 20
    · cases hkey
  | none =>
    rw [hkey] at h
    cases hscript : isToScriptID script with
    | some scriptID =>
      rw [hscript] at h
      cases h
      unfold isToScriptID at hscript
      split at hscript
      · rename_i hshape
        cases hscript
        refine ⟨1, (script.drop 2).take 20, rfl, by decide, ?_, ?_⟩
        · simp [hshape.1, getSpecialScriptSize]
        · rw [decompressScript, ← hshape.2.1, ← hshape.2.2]
          exact split_three script 2 20
      · cases hscript
    | none =>
      rw [hscript] at h
      obtain ⟨pubkey, hpubkey, h⟩ := Option.bind_eq_some_iff.mp h
      exact compressPubKey_spec hK hpubkey h

def nSpecialScripts : Nat := 6

def writeScript (K : Secp256k1) (script : CScript) : Bytes :=
  match compressScript K script with
  | some compr => compr
  | none => writeVarInt 32 (script.length + nSpecialScripts) ++ script

/-- `CScriptCompressor::Unserialize`: a script that is too long is replaced. -/
def readScript (K : Secp256k1) : ByteReader CScript := do
  let nSize ← readVarInt 32
  if nSize < nSpecialScripts then do
    let vch ← readBlock endOfFile (getSpecialScriptSize nSize)
    pure (decompressScript K nSize vch)
  else if MAX_SCRIPT_SIZE < nSize - nSpecialScripts then do
    let _ ← readBlock endOfFile (nSize - nSpecialScripts)
    pure [OP_RETURN]
  else readBlock endOfFile (nSize - nSpecialScripts)

theorem reads_code {code : Nat} (h : code < 6) : Reads (readVarInt 32) [UInt8.ofNat code] code := by
  have hread : Reads (readVarInt 32) (writeVarInt 32 code) code :=
    reads_varInt (by decide) (by omega)
  have hwritten : writeVarInt 32 code = [UInt8.ofNat code] := by
    rw [writeVarInt, show (32 + 6) / 7 = 4 + 1 from rfl, varIntDigits, if_pos (by omega),
      Nat.mod_eq_of_lt (by omega), Nat.add_zero]
    rfl
  rwa [hwritten] at hread

theorem reads_script (hK : K.Inverts) (hlength : script.length ≤ MAX_SCRIPT_SIZE) :
    Reads (readScript K) (writeScript K script) script := by
  have hmax : MAX_SCRIPT_SIZE = 10000 := rfl
  unfold writeScript
  cases hcompress : compressScript K script with
  | some compr =>
    obtain ⟨code, data, hcompr⟩ := compressScript_spec hK hcompress
    simp only
    rw [hcompr.out_eq, ← singleton_append]
    refine reads_bind (reads_code hcompr.code_lt) ?_
    simp only [nSpecialScripts, hcompr.code_lt, if_true]
    refine reads_bind_pure (a := data) ?_ ?_
    · rw [← hcompr.length]
      exact reads_block endOfFile data
    · rw [hcompr.decompress]
      exact reads_pure script
  | none =>
    refine reads_bind (reads_varInt (by decide) (by rw [nSpecialScripts]; omega)) ?_
    rw [if_neg (by omega), Nat.add_sub_cancel, if_neg (by omega)]
    exact reads_block endOfFile script

/-! ### Outputs -/

def writeTxOut (K : Secp256k1) (txout : CTxOut) : Bytes :=
  writeVarInt 64 (compressAmount (txout.nValue % 2 ^ 64).toNat) ++ writeScript K txout.scriptPubKey

def readTxOut (K : Secp256k1) : ByteReader CTxOut := do
  let nVal ← readVarInt 64
  let scriptPubKey ← readScript K
  pure ⟨decompressAmount nVal, scriptPubKey⟩

theorem reads_txOut (hK : K.Inverts) {txout : CTxOut} (hvalue : moneyRange txout.nValue = true)
    (hscript : txout.scriptPubKey.length ≤ MAX_SCRIPT_SIZE) :
    Reads (readTxOut K) (writeTxOut K txout) txout := by
  obtain ⟨hlow, hhigh⟩ := moneyRange_iff.mp hvalue
  have hmax : MAX_MONEY = 2100000000000000 := rfl
  have hmod : (txout.nValue % 2 ^ 64).toNat = txout.nValue.toNat := by
    rw [Int.emod_eq_of_lt hlow (by omega)]
  obtain ⟨hback, hfits⟩ := decompressAmount_compressAmount txout.nValue.toNat (by omega)
  rw [writeTxOut, hmod]
  refine reads_bind (reads_varInt (by decide) hfits) ?_
  refine reads_bind_pure (reads_script hK hscript) ?_
  rw [hback, Int.toNat_of_nonneg hlow]
  exact reads_pure txout

end VBitcoin
