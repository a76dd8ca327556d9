import VBitcoin.BlockEncoding

/-!
**Requests for transactions of a block** (`BlockTransactionsRequest` in `blockencodings.h`) —
each position is written as the number of positions skipped since the one before; the reader
checks every difference and every running sum against 16 bits.
-/

namespace VBitcoin

open Codec List

/-! ### The message -/

structure BlockTransactionsRequest where
  blockhash : UInt256
  indexes : List UInt16
  deriving DecidableEq, Repr

/-- From `next` on, subtracted as `int`, kept as `uint64_t`. -/
def differences : Nat → List UInt16 → List Nat
  | _, [] => []
  | next, index :: indexes =>
    (((index.toNat : Int) - next) % 2 ^ 64).toNat :: differences (index.toNat + 1) indexes

def BlockTransactionsRequest.serialize (req : BlockTransactionsRequest) : Bytes :=
  serializeUInt256 req.blockhash ++ (writeCompactSize req.indexes.length ++
    ((differences 0 req.indexes).map writeCompactSize).flatten)

def readIndex : ByteReader UInt16 := do
  let index ← readCompactSize
  if 65535 < index then throw "index overflowed 16 bits"
  else pure (UInt16.ofNat index)

/-- The reader's second loop adds the offset in place. -/
def addOffsets : Nat → List UInt16 → Except String (List UInt16)
  | _, [] => .ok []
  | offset, index :: indexes =>
    if 65535 < index.toNat + offset then .error "indexes overflowed 16 bits"
    else do
      let sum := UInt16.ofNat (index.toNat + offset)
      let sums ← addOffsets (sum.toNat + 1) indexes
      pure (sum :: sums)

def unserializeTransactionsRequest : ByteReader BlockTransactionsRequest := do
  let blockhash ← readUInt256
  let indexes_size ← readCompactSize
  let read ← readChunked readIndex indexes_size
  let indexes ← StateT.lift (addOffsets 0 read)
  pure { blockhash, indexes }

/-! ### Differences and sums -/

def IncreasingFrom (next : Nat) (indexes : List UInt16) : Prop :=
  indexes.Pairwise (· < ·) ∧ ∀ index ∈ indexes, next ≤ index.toNat

variable {next : Nat} {indexes : List UInt16}

theorem increasingFrom_cons {index : UInt16} :
    IncreasingFrom next (index :: indexes) ↔
      next ≤ index.toNat ∧ IncreasingFrom (index.toNat + 1) indexes := by
  constructor
  · rintro ⟨hsorted, hle⟩
    rw [pairwise_cons] at hsorted
    exact ⟨hle index mem_cons_self, hsorted.2, hsorted.1⟩
  · rintro ⟨hle, hsorted, hlt⟩
    refine ⟨pairwise_cons.mpr ⟨hlt, hsorted⟩, ?_⟩
    intro later hmem
    rcases mem_cons.mp hmem with rfl | hmem
    · exact hle
    · exact hle.trans (Nat.le_of_succ_le (hlt later hmem))

theorem difference_eq {index : UInt16} (h : next ≤ index.toNat) :
    (((index.toNat : Int) - next) % 2 ^ 64).toNat = index.toNat - next := by
  have hlt : index.toNat < 65536 := index.toNat_lt
  omega

theorem differences_le (h : IncreasingFrom next indexes) :
    ∀ n ∈ differences next indexes, n ≤ 65535 := by
  induction indexes generalizing next with
  | nil => simp [differences]
  | cons index indexes ih =>
    obtain ⟨hle, hrest⟩ := increasingFrom_cons.mp h
    have hlt : index.toNat < 65536 := index.toNat_lt
    intro n hmem
    rw [differences, difference_eq hle] at hmem
    rcases mem_cons.mp hmem with rfl | hmem
    · omega
    · exact ih hrest n hmem

theorem length_differences (next : Nat) (indexes : List UInt16) :
    (differences next indexes).length = indexes.length := by
  induction indexes generalizing next with
  | nil => rfl
  | cons index indexes ih => rw [differences, length_cons, length_cons, ih]

theorem addOffsets_differences (h : IncreasingFrom next indexes) :
    addOffsets next ((differences next indexes).map UInt16.ofNat) = .ok indexes := by
  induction indexes generalizing next with
  | nil => rfl
  | cons index indexes ih =>
    obtain ⟨hle, hrest⟩ := increasingFrom_cons.mp h
    have hlt : index.toNat < 65536 := index.toNat_lt
    have hback : (UInt16.ofNat (index.toNat - next)).toNat + next = index.toNat := by
      rw [UInt16.toNat_ofNat_of_lt' (by simp only [UInt16.size]; omega)]
      omega
    rw [differences, difference_eq hle, map_cons, addOffsets, hback, if_neg (by omega),
      UInt16.ofNat_toNat]
    simp only [ih hrest]
    rfl

theorem differences_of_addOffsets {offset : Nat} {read : List UInt16}
    (h : addOffsets offset read = .ok indexes) :
    IncreasingFrom offset indexes ∧ differences offset indexes = read.map UInt16.toNat := by
  induction read generalizing offset indexes with
  | nil =>
    cases h
    exact ⟨⟨List.Pairwise.nil, by simp⟩, rfl⟩
  | cons index read ih =>
    rw [addOffsets] at h
    split at h
    · cases h
    · rename_i hfits
      simp only [bind_eq_ok, pure_eq_ok_iff] at h
      obtain ⟨sums, hsums, rfl⟩ := h
      have hsum : (UInt16.ofNat (index.toNat + offset)).toNat = index.toNat + offset :=
        UInt16.toNat_ofNat_of_lt' (by simp only [UInt16.size]; omega)
      have hle : offset ≤ (UInt16.ofNat (index.toNat + offset)).toNat := by omega
      obtain ⟨hincreasing, hdifferences⟩ := ih hsums
      refine ⟨increasingFrom_cons.mpr ⟨hle, hincreasing⟩, ?_⟩
      rw [differences, difference_eq hle, hdifferences, hsum, Nat.add_sub_cancel, map_cons]

/-! ### The codec -/

theorem reads_index (index : UInt16) : Reads readIndex (writeCompactSize index.toNat) index := by
  have hlt : index.toNat < 65536 := index.toNat_lt
  have hmax : MAX_SIZE = 33554432 := rfl
  refine reads_bind_pure (reads_compactSize (by omega)) ?_
  rw [if_neg (by omega), UInt16.ofNat_toNat]
  exact reads_pure index

theorem yields_index :
    Yields readIndex fun index used => used = writeCompactSize index.toNat ∧ True := by
  refine yields_bind yields_compactSize ?_
  rintro n used ⟨rfl, -⟩
  split
  · exact yields_throw _ _
  · refine yields_pure ⟨?_, trivial⟩
    rw [append_nil, UInt16.toNat_ofNat_of_lt' (by simp only [UInt16.size]; omega)]

theorem length_le_of_increasing (h : indexes.Pairwise (· < ·)) : indexes.length ≤ 65536 := by
  have hnodup : (indexes.map UInt16.toNat).Nodup :=
    pairwise_map.mpr (h.imp fun hlt => Nat.ne_of_lt hlt)
  have hsubset : indexes.map UInt16.toNat ⊆ List.range 65536 := by
    intro n hmem
    obtain ⟨index, -, rfl⟩ := mem_map.mp hmem
    exact mem_range.mpr index.toNat_lt
  have hle := (subperm_of_subset hnodup hsubset).length_le
  rwa [length_map, length_range] at hle

/-- **A request is read back.** -/
theorem reads_transactionsRequest {req : BlockTransactionsRequest}
    (h : req.indexes.Pairwise (· < ·)) :
    Reads unserializeTransactionsRequest req.serialize req := by
  have hincreasing : IncreasingFrom 0 req.indexes := ⟨h, fun _ _ => Nat.zero_le _⟩
  have hcount : req.indexes.length ≤ MAX_SIZE :=
    (length_le_of_increasing h).trans (by decide)
  have hwritten : ((differences 0 req.indexes).map UInt16.ofNat).map
      (fun index => writeCompactSize index.toNat) =
        (differences 0 req.indexes).map writeCompactSize := by
    rw [map_map]
    refine map_congr_left fun n hn => ?_
    have hle := differences_le hincreasing n hn
    rw [Function.comp_apply, UInt16.toNat_ofNat_of_lt' (by simp only [UInt16.size]; omega)]
  rw [BlockTransactionsRequest.serialize, ← hwritten]
  refine reads_bind (reads_uint256 _) (reads_bind (reads_compactSize hcount) ?_)
  refine reads_bind_pure (reads_chunked _ _ ?_ fun index _ => reads_index index) ?_
  · rw [length_map, length_differences]
  · exact reads_bind_pure (reads_lift (addOffsets_differences hincreasing)) (reads_pure req)

/-- **What is read is an increasing list, and it has no other encoding.** -/
theorem yields_transactionsRequest :
    Yields unserializeTransactionsRequest fun req used =>
      req.indexes.Pairwise (· < ·) ∧ used = req.serialize := by
  refine yields_bind yields_uint256 ?_
  rintro blockhash used rfl
  refine yields_bind yields_compactSize ?_
  rintro indexes_size used ⟨rfl, -⟩
  refine yields_bind (yields_chunked yields_index indexes_size) ?_
  rintro read used ⟨rfl, hcount, -⟩
  refine yields_bind (yields_lift (addOffsets 0 read)) ?_
  rintro indexes used ⟨rfl, hindexes⟩
  obtain ⟨⟨hincreasing, -⟩, hdifferences⟩ := differences_of_addOffsets hindexes
  have hlength : indexes.length = indexes_size := by
    rw [← length_differences 0, hdifferences, length_map, hcount]
  refine yields_pure ⟨hincreasing, ?_⟩
  rw [BlockTransactionsRequest.serialize, hdifferences, hlength, map_map]
  simp only [append_nil]
  rfl

/-- **Differential coding is a bijection** between increasing lists of indexes and the byte strings
    that the reader accepts. -/
theorem transactionsRequest_bijective :
    (∀ req : BlockTransactionsRequest, req.indexes.Pairwise (· < ·) →
      Reads unserializeTransactionsRequest req.serialize req) ∧
    ∀ input, (∃ e, unserializeTransactionsRequest.run input = .error e) ∨
      ∃ req rest, unserializeTransactionsRequest.run input = .ok (req, rest) ∧
        req.indexes.Pairwise (· < ·) ∧ input = req.serialize ++ rest := by
  refine ⟨fun req h => reads_transactionsRequest h, fun input => ?_⟩
  cases hrun : unserializeTransactionsRequest.run input with
  | error e => exact Or.inl ⟨e, rfl⟩
  | ok result =>
    obtain ⟨req, rest⟩ := result
    obtain ⟨used, hinput, hincreasing, rfl⟩ := yields_transactionsRequest input req rest hrun
    exact Or.inr ⟨req, rest, rfl, hincreasing, hinput⟩

theorem outermost_indexes_requested :
    Reads unserializeTransactionsRequest
      (BlockTransactionsRequest.serialize ⟨0, [0, 1, 65535]⟩) ⟨0, [0, 1, 65535]⟩ :=
  transactionsRequest_bijective.1 ⟨0, [0, 1, 65535]⟩ (by decide)

-- one more index would be 65536
example : addOffsets 0 [65535, 0] = .error "indexes overflowed 16 bits" := by decide

end VBitcoin
