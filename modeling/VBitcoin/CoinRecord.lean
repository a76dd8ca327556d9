import VBitcoin.Undo
import VBitcoin.Regtest

/-!
**Records of coins** — `Coin::Serialize` and `Coin::Unserialize` (`coins.h`).  The amounts are
compressed in 64-bit arithmetic that wraps; with every product and sum checked
(`compressAmountChecked`, `decompressAmountChecked`) nothing does in the money range.
-/

namespace VBitcoin

open Codec

/-! ### Amounts without wrapping -/

def fitsUInt64 (n : Nat) : Option Nat := if n < 2 ^ 64 then some n else none

variable {n nAmount : Nat}

theorem fitsUInt64_eq (h : n < 2 ^ 64) : fitsUInt64 n = some n := if_pos h

theorem fitsUInt64_bind {β : Type} {f : Nat → Option β} (h : n < 2 ^ 64) :
    (fitsUInt64 n >>= f) = f n := by
  rw [fitsUInt64_eq h]
  rfl

/-- Every operation must fit and the assertion must hold. -/
def compressAmountChecked (nAmount : Nat) : Option Nat :=
  if nAmount = 0 then some 0
  else
    let (n, e) := stripZeros 9 nAmount 0
    if e < 9 then
      let d := n % 10
      if 1 ≤ d ∧ d ≤ 9 then do
        let nine ← fitsUInt64 (n / 10 * 9)
        let sum ← fitsUInt64 (nine + d)
        let ten ← fitsUInt64 ((sum - 1) * 10)
        let one ← fitsUInt64 (1 + ten)
        fitsUInt64 (one + e)
      else none
    else do
      let ten ← fitsUInt64 ((n - 1) * 10)
      let one ← fitsUInt64 (1 + ten)
      fitsUInt64 (one + 9)

def scaleChecked : Nat → Nat → Option Nat
  | 0, n => some n
  | e + 1, n => do
    let n ← fitsUInt64 (n * 10)
    scaleChecked e n

def decompressAmountChecked (x : Nat) : Option Nat :=
  if x = 0 then some 0
  else
    let e := (x - 1) % 10
    let x := (x - 1) / 10
    if e < 9 then do
      let ten ← fitsUInt64 (x / 9 * 10)
      let n ← fitsUInt64 (ten + (x % 9 + 1))
      scaleChecked e n
    else do
      let n ← fitsUInt64 (x + 1)
      scaleChecked e n

theorem compressAmountChecked_eq (h : nAmount ≤ MAX_MONEY.toNat) :
    compressAmountChecked nAmount = some (compressAmount nAmount) := by
  have hmax : MAX_MONEY.toNat = 2100000000000000 := rfl
  obtain ⟨k, he, -, hm, hlast⟩ := stripZeros_spec 9 nAmount 0
  unfold compressAmountChecked compressAmount
  split
  · rfl
  · generalize stripZeros 9 nAmount 0 = stripped at he hm hlast
    obtain ⟨n, e⟩ := stripped
    dsimp only at he hm hlast ⊢
    have hle : n ≤ nAmount := by
      rw [← hm]
      exact Nat.le_mul_of_pos_right n (Nat.pow_pos (by omega))
    split
    · -- the last digit is not zero, which is the assertion
      have hdigit := hlast (by omega)
      rw [if_pos (by omega), fitsUInt64_bind (by omega), fitsUInt64_bind (by omega),
        fitsUInt64_bind (by omega), fitsUInt64_bind (by omega), fitsUInt64_eq (by omega)]
      exact congrArg some (Nat.mod_eq_of_lt (by omega)).symm
    · rw [fitsUInt64_bind (by omega), fitsUInt64_bind (by omega), fitsUInt64_eq (by omega)]
      exact congrArg some (Nat.mod_eq_of_lt (by omega)).symm

theorem scaleChecked_eq : ∀ {e n : Nat}, n * 10 ^ e < 2 ^ 64 → scaleChecked e n = some (n * 10 ^ e)
  | 0, n, _ => by rw [scaleChecked, Nat.pow_zero, Nat.mul_one]
  | e + 1, n, h => by
    have hpow : n * 10 ^ (e + 1) = n * 10 * 10 ^ e := by
      rw [Nat.pow_succ, Nat.mul_assoc, Nat.mul_comm 10]
    have hle : n * 10 ≤ n * 10 * 10 ^ e := Nat.le_mul_of_pos_right _ (Nat.pow_pos (by omega))
    rw [scaleChecked, fitsUInt64_bind (by omega), hpow]
    exact scaleChecked_eq (by omega)

theorem decompressAmountChecked_eq {x : Nat} (hpos : 0 < x)
    (h : decodedDigits x * 10 ^ ((x - 1) % 10) < 2 ^ 64) :
    decompressAmountChecked x = some (decodedDigits x * 10 ^ ((x - 1) % 10)) := by
  have hpow : 0 < 10 ^ ((x - 1) % 10) := Nat.pow_pos (by omega)
  have hsmall : decodedDigits x < 2 ^ 64 := (Nat.le_mul_of_pos_right _ hpow).trans_lt h
  have hdigits := scaleChecked_eq h
  unfold decompressAmountChecked
  rw [if_neg (by omega)]
  unfold decodedDigits at hsmall hdigits ⊢
  dsimp only
  split
  · rename_i hnine
    rw [if_pos hnine] at hsmall hdigits
    rw [fitsUInt64_bind (by omega), fitsUInt64_bind (by omega), hdigits]
  · rename_i hnine
    rw [if_neg hnine] at hsmall hdigits
    rw [fitsUInt64_bind (by omega), hdigits]

theorem decompressAmountChecked_compressAmount (h : nAmount ≤ MAX_MONEY.toNat) :
    decompressAmountChecked (compressAmount nAmount) = some nAmount := by
  have hmax : MAX_MONEY.toNat = 2100000000000000 := rfl
  by_cases hzero : nAmount = 0
  · subst hzero
    rfl
  · obtain ⟨hpos, -, hdigits⟩ := compressAmount_spec h hzero
    rw [decompressAmountChecked_eq hpos (by omega), hdigits]

/-! ### `Coin::Serialize` and `Coin::Unserialize` -/

/-- What `Coin::Serialize` writes; the code is kept in a `uint32_t`. -/
def coinBytes (K : Secp256k1) (coin : Coin) : Bytes :=
  writeVarInt 32 ((coin.nHeight * 2 + (if coin.fCoinBase then 1 else 0)) % 2 ^ 32) ++
    writeTxOut K coin.out

def writeCoin (K : Secp256k1) (coin : Coin) : Run Bytes := do
  require (!coin.isSpent) (.assertion "!IsSpent()")
  pure (coinBytes K coin)

def readCoin (K : Secp256k1) : ByteReader Coin := do
  let code ← readVarInt 32
  let out ← readTxOut K
  pure ⟨out, code / 2, code % 2 == 1⟩

theorem reads_coin {K : Secp256k1} (hK : K.Inverts) {coin : Coin} (h : Storable coin)
    (hspent : coin.isSpent = false) :
    ∃ bytes, writeCoin K coin = .ok bytes ∧ Reads (readCoin K) bytes coin := by
  refine ⟨coinBytes K coin, ?_, ?_⟩
  · rw [writeCoin, hspent]
    rfl
  · rw [coinBytes, Nat.mod_eq_of_lt (code_lt h)]
    refine reads_bind (reads_varInt (by decide) (code_lt h)) ?_
    rw [code_div_two, code_mod_two]
    exact reads_bind_pure (reads_txOut hK h.value h.script) (reads_pure coin)

/-- Records of coins are read back to the last byte; amounts do not wrap. -/
theorem coin_records_survive {K : Secp256k1} (hK : K.Inverts) (coin : Coin)
    (hspent : coin.isSpent = false) (hvalue : 0 ≤ coin.out.nValue ∧ coin.out.nValue ≤ MAX_MONEY)
    (hheight : coin.nHeight < 2 ^ 31) (hscript : coin.out.scriptPubKey.length ≤ MAX_SCRIPT_SIZE) :
    (∃ bytes, writeCoin K coin = .ok bytes ∧ Reads (readCoin K) bytes coin) ∧
    Reads (readTxInUndo K) (writeTxInUndo K coin) coin ∧
    (∀ nAmount ≤ MAX_MONEY.toNat, decompressAmount (compressAmount nAmount) = nAmount ∧
      compressAmount (decompressAmount (compressAmount nAmount)) = compressAmount nAmount ∧
      compressAmountChecked nAmount = some (compressAmount nAmount) ∧
      decompressAmountChecked (compressAmount nAmount) = some nAmount) := by
  have hstorable : Storable coin := ⟨hheight, moneyRange_iff.mpr hvalue, hscript⟩
  refine ⟨reads_coin hK hstorable hspent, reads_txInUndo hK hstorable, fun nAmount h => ?_⟩
  have hback := (decompressAmount_compressAmount nAmount h).1
  exact ⟨hback, by rw [hback], compressAmountChecked_eq h, decompressAmountChecked_compressAmount h⟩

namespace Regtest

def storedCoin : Coin where
  out := ⟨2500000000, [OP_DUP, OP_HASH160, 20] ++ (List.replicate 20 7 ++
    [OP_EQUALVERIFY, OP_CHECKSIG])⟩
  nHeight := 200
  fCoinBase := true

theorem storedCoin_survives :
    ∃ bytes, writeCoin env.secp storedCoin = .ok bytes ∧
      Reads (readCoin env.secp) bytes storedCoin :=
  (coin_records_survive secp_inverts storedCoin (by decide) (by decide) (by decide)
    (by decide)).1

end Regtest

end VBitcoin
