import VBitcoin.Regtest
import VBitcoin.Transport

/-!
**How the stream of a peer is cut does not matter** (`CNode::ReceiveMsgBytes`, `net.cpp`) —
with the buffer of `V1TransportDeserializer` as it is allocated, up to 256 KiB ahead of the
data.  It depends on the cuts; the bytes that were received do not.
-/

namespace VBitcoin

open List

def resize (n : Nat) (vRecv : Bytes) : Bytes := vRecv.take n ++ replicate (n - vRecv.length) 0

/-- With what is allocated of `vRecv` behind the bytes received. -/
structure BufferedDeserializer where
  core : V1TransportDeserializer
  ahead : Bytes := []

namespace BufferedDeserializer

def vRecv (d : BufferedDeserializer) : Bytes := d.core.vRecv ++ d.ahead

/-- `Read`: `readData` makes room before it copies. -/
def read (d : BufferedDeserializer) (pch : Bytes) : Option (Nat × BufferedDeserializer) :=
  match d.core.read pch with
  | none => none
  | some (nCopy, core) =>
    if d.core.in_data then
      let nEnd := d.core.vRecv.length + nCopy
      let vRecv :=
        if d.vRecv.length < nEnd then
          resize (min d.core.hdr.nMessageSize.toNat ((nEnd + 256 * 1024) % 2 ^ 32)) d.vRecv
        else d.vRecv
      some (nCopy, { core, ahead := vRecv.drop nEnd })
    else some (nCopy, { d with core })

end BufferedDeserializer

/-- Its deserializer until disconnected, messages and earlier states. -/
structure Receiver where
  d : Option BufferedDeserializer
  vRecvMsg : List CNetMessage := []
  moments : List BufferedDeserializer := []

namespace NodeEnv

variable (E : NodeEnv) (messageStart : FixedBytes 4)

def getBufferedMessage (d : BufferedDeserializer) : CNetMessage :=
  { E.getMessage messageStart d.core with m_recv := d.vRecv }

def receiveBytes : Nat → Receiver → Bytes → Receiver
  | 0, r, _ => r
  | fuel + 1, r, pch =>
    match r.d with
    | none => r
    | some d =>
      if pch.isEmpty then r
      else
        match d.read pch with
        | none => { r with d := none }
        | some (handled, d) =>
          let moments := d :: r.moments
          if d.core.complete then
            receiveBytes fuel ⟨some { core := d.core.reset },
              r.vRecvMsg ++ [E.getBufferedMessage messageStart d], moments⟩ (pch.drop handled)
          else receiveBytes fuel ⟨some d, r.vRecvMsg, moments⟩ (pch.drop handled)

/-- The stream of a new peer, in the pieces that the socket delivers. -/
def receiveChunks (hdr : CMessageHeader) (chunks : List Bytes) : Receiver :=
  chunks.foldl (fun r pch => E.receiveBytes messageStart pch.length r pch)
    { d := some { core := { hdr } } }

end NodeEnv

/-! ### The buffer -/

namespace BufferedDeserializer

variable {d d' : BufferedDeserializer} {pch : Bytes} {n : Nat}

/-- At most 256 KiB ahead and within the message; before the data it is empty. -/
structure WithinLimits (d : BufferedDeserializer) : Prop where
  ahead : d.vRecv.length ≤ d.core.vRecv.length + 256 * 1024
  header : d.core.in_data = false → d.vRecv = []
  size : d.core.in_data = true → d.vRecv.length ≤ d.core.hdr.nMessageSize.toNat
  limit : d.core.in_data = true → d.core.hdr.nMessageSize.toNat ≤ MAX_PROTOCOL_MESSAGE_LENGTH

theorem length_resize (n : Nat) (vRecv : Bytes) : (resize n vRecv).length = n := by
  rw [resize, length_append, length_take, length_replicate]
  omega

theorem core_read (hread : d.read pch = some (n, d')) : d.core.read pch = some (n, d'.core) := by
  unfold read at hread
  split at hread
  · cases hread
  · rename_i hcore
    split at hread <;>
    · cases hread
      exact hcore

theorem WithinLimits.read (h : d.WithinLimits) (hvalid : d.core.Valid)
    (hread : d.read pch = some (n, d')) : d'.WithinLimits := by
  have hvalid' := hvalid.read (core_read hread)
  unfold BufferedDeserializer.read at hread
  split at hread
  · cases hread
  rename_i nCopy core hcore
  cases hphase : d.core.in_data with
  | false =>
    rw [hphase, if_neg Bool.false_ne_true] at hread
    cases hread
    have hempty := append_eq_nil_iff.mp (h.header hphase)
    have hbuffer : core.vRecv ++ d.ahead = [] := by
      rw [V1TransportDeserializer.vRecv_of_read hphase hcore, hempty.1, hempty.2, append_nil]
    exact ⟨by simp [vRecv, hbuffer], fun _ => hbuffer, fun _ => by simp [vRecv, hbuffer],
      fun hdata => (hvalid'.data hdata).2⟩
  | true =>
    rw [hphase, if_pos rfl] at hread
    cases hread
    rw [V1TransportDeserializer.read, hphase, if_pos rfl] at hcore
    cases hcore
    have hlimit := h.limit hphase
    have hsize := h.size hphase
    have hahead := h.ahead
    have hreceived := (hvalid.data hphase).1
    simp only [MAX_PROTOCOL_MESSAGE_LENGTH] at hlimit
    refine ⟨?_, fun hheader => absurd hheader (by simp [hphase]), fun _ => ?_,
      fun _ => h.limit hphase⟩
    all_goals
      simp only [vRecv, length_append, length_drop, length_take, apply_ite List.length,
        length_resize] at hsize hahead ⊢
      split_ifs <;> omega

theorem WithinLimits.vRecv_eq (h : d.WithinLimits) (hcomplete : d.core.complete = true) :
    d.vRecv = d.core.vRecv := by
  rw [V1TransportDeserializer.complete, Bool.and_eq_true, beq_iff_eq] at hcomplete
  have hsize := h.size hcomplete.1
  rw [vRecv, length_append] at hsize
  rw [vRecv, eq_nil_of_length_eq_zero (by omega : d.ahead.length = 0), append_nil]

end BufferedDeserializer

/-! ### The stream -/

namespace Receiver

def inbox (r : Receiver) : Inbox := ⟨r.d.map BufferedDeserializer.core, r.vRecvMsg⟩

structure Ok (r : Receiver) : Prop where
  inbox : r.inbox.Ok
  buffer : ∀ d, r.d = some d → d.WithinLimits
  moments : ∀ d ∈ r.moments, d.WithinLimits

end Receiver

namespace NodeEnv

variable {E : NodeEnv} {messageStart : FixedBytes 4}

theorem withinLimits_fresh {core : V1TransportDeserializer} (h : core.Fresh) :
    BufferedDeserializer.WithinLimits { core } := by
  have hempty : BufferedDeserializer.vRecv { core } = [] := by
    rw [BufferedDeserializer.vRecv, h.2.2, append_nil]
  exact ⟨by simp [hempty], fun _ => hempty, fun hdata => absurd hdata (by simp [h.1]),
    fun hdata => absurd hdata (by simp [h.1])⟩

/-- **One buffer** from the socket gives what its bytes give one by one. -/
theorem receiveBytes_spec (fuel : Nat) : ∀ {r : Receiver} {pch : Bytes}, pch.length ≤ fuel →
    r.Ok →
    (E.receiveBytes messageStart fuel r pch).Ok ∧
      (E.receiveBytes messageStart fuel r pch).inbox =
        pch.foldl (E.feed messageStart) r.inbox := by
  induction fuel with
  | zero =>
    intro r pch hfuel h
    obtain rfl := length_eq_zero_iff.mp (Nat.le_zero.mp hfuel)
    exact ⟨h, rfl⟩
  | succ fuel ih =>
    intro r pch hfuel h
    obtain ⟨_ | d, vRecvMsg, moments⟩ := r
    · exact ⟨h, (foldl_feed_none vRecvMsg pch).symm⟩
    by_cases hpch : pch = []
    · subst hpch
      exact ⟨h, rfl⟩
    obtain ⟨hvalid, hopen⟩ := h.inbox.valid d.core rfl
    have hfeed := @foldl_feed_read E messageStart _ hvalid hopen vRecvMsg pch
    rw [receiveBytes]
    dsimp only
    rw [if_neg (by simpa using hpch)]
    cases hread : d.read pch with
    | none =>
      have hcore : d.core.read pch = none := by
        unfold BufferedDeserializer.read at hread
        split at hread
        · assumption
        · split at hread <;> cases hread
      rw [hcore] at hfeed
      exact ⟨⟨⟨nofun, h.inbox.limited⟩, nofun, h.moments⟩, hfeed.symm⟩
    | some result =>
      obtain ⟨n, d'⟩ := result
      have hcore := BufferedDeserializer.core_read hread
      have hwithin := (h.buffer d rfl).read hvalid hread
      have hmoments : ∀ m ∈ d' :: moments, m.WithinLimits :=
        forall_mem_cons.mpr ⟨hwithin, h.moments⟩
      have hok := @arrive_ok E messageStart _ _ h.inbox.limited (hvalid.read hcore)
      have hpos := hvalid.read_pos hopen hpch hcore
      have hrest : (pch.drop n).length ≤ fuel := by
        rw [length_drop]
        omega
      rw [hcore] at hfeed
      conv => rhs; rhs; rw [← take_append_drop n pch, foldl_append]
      rw [show Receiver.inbox ⟨some d, vRecvMsg, moments⟩ = ⟨some d.core, vRecvMsg⟩ from rfl, hfeed]
      dsimp only
      unfold arrive at hok ⊢
      split_ifs at hok ⊢ with hcomplete
      · have hmessage : E.getBufferedMessage messageStart d' =
            E.getMessage messageStart d'.core := by
          rw [getBufferedMessage, hwithin.vRecv_eq hcomplete]
          rfl
        rw [hmessage]
        refine ih hrest ⟨hok, ?_, hmoments⟩
        rintro _ ⟨⟩
        exact withinLimits_fresh ⟨rfl, rfl, rfl⟩
      · refine ih hrest ⟨hok, ?_, hmoments⟩
        rintro _ ⟨⟩
        exact hwithin

theorem receiveChunks_spec (hdr : CMessageHeader) (chunks : List Bytes) :
    (E.receiveChunks messageStart hdr chunks).Ok ∧
      (E.receiveChunks messageStart hdr chunks).inbox =
        chunks.flatten.foldl (E.feed messageStart) ⟨some { hdr }, []⟩ := by
  have hchunks : ∀ r : Receiver, r.Ok →
      (chunks.foldl (fun r pch => E.receiveBytes messageStart pch.length r pch) r).Ok ∧
        (chunks.foldl (fun r pch => E.receiveBytes messageStart pch.length r pch) r).inbox =
          chunks.flatten.foldl (E.feed messageStart) r.inbox := by
    induction chunks with
    | nil => exact fun r h => ⟨h, rfl⟩
    | cons pch rest ih =>
      intro r h
      obtain ⟨hok, hinbox⟩ := @receiveBytes_spec E messageStart _ r pch le_rfl h
      rw [flatten_cons, foldl_append, ← hinbox]
      exact ih _ hok
  have hfresh : V1TransportDeserializer.Fresh { hdr } := ⟨rfl, rfl, rfl⟩
  apply hchunks
  refine ⟨fresh_ok hfresh, ?_, nofun⟩
  rintro _ ⟨⟩
  exact withinLimits_fresh hfresh

end NodeEnv

namespace Regtest

def pchMessageStart : FixedBytes 4 := ⟨[0xfa, 0xbf, 0xb5, 0xda], rfl⟩

end Regtest

end VBitcoin
