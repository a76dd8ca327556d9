import VBitcoin.Undo

/-!
**Messages between nodes** (`net.cpp`, `protocol.cpp`) — `CConnman::PushMessage` puts a header
of 24 bytes before the data; `V1TransportDeserializer` takes bytes as the socket delivers
them.  However they are cut, they are received one by one (`receiveAll_eq`).
-/

namespace VBitcoin

open List

/-! ### Message headers -/

def MAX_PROTOCOL_MESSAGE_LENGTH : Nat := 4 * 1000 * 1000

abbrev FixedBytes (n : Nat) := { bytes : Bytes // bytes.length = n }

structure CMessageHeader where
  pchMessageStart : FixedBytes 4
  pchCommand : FixedBytes 12
  nMessageSize : UInt32
  pchChecksum : FixedBytes 4

namespace CMessageHeader

def serialize (hdr : CMessageHeader) : Bytes :=
  hdr.pchMessageStart.1 ++ hdr.pchCommand.1 ++ leBytes 4 hdr.nMessageSize.toNat ++
    hdr.pchChecksum.1

@[simp] theorem serialize_length (hdr : CMessageHeader) : hdr.serialize.length = 24 := by
  simp [serialize, hdr.pchMessageStart.2, hdr.pchCommand.2, hdr.pchChecksum.2]

def unserialize (hdrbuf : FixedBytes 24) : CMessageHeader where
  pchMessageStart := ⟨hdrbuf.1.take 4, by simp [hdrbuf.2]⟩
  pchCommand := ⟨(hdrbuf.1.drop 4).take 12, by simp [hdrbuf.2]⟩
  nMessageSize := UInt32.ofNat (readLE ((hdrbuf.1.drop 16).take 4))
  pchChecksum := ⟨hdrbuf.1.drop 20, by simp [hdrbuf.2]⟩

theorem unserialize_serialize (hdr : CMessageHeader) :
    unserialize ⟨hdr.serialize, hdr.serialize_length⟩ = hdr := by
  obtain ⟨⟨start, hstart⟩, ⟨command, hcommand⟩, nMessageSize, ⟨checksum, hchecksum⟩⟩ := hdr
  have hsize : readLE (leBytes 4 nMessageSize.toNat) = nMessageSize.toNat :=
    readLE_leBytes nMessageSize.toNat_lt
  simp [unserialize, serialize, drop_append, hstart, hcommand, hsize, drop_of_length_le]

/-- The command of a header must be printable and padded with zeros. -/
def commandValid : Bytes → Bool
  | [] => true
  | c :: rest =>
    if c == 0 then rest.all (· == 0) else 0x20 ≤ c && c ≤ 0x7e && commandValid rest

def isValid (hdr : CMessageHeader) (messageStart : FixedBytes 4) : Bool :=
  hdr.pchMessageStart.1 == messageStart.1 && commandValid hdr.pchCommand.1 &&
    hdr.nMessageSize.toNat ≤ MAX_SIZE

def getCommand (hdr : CMessageHeader) : Bytes := hdr.pchCommand.1.takeWhile (· != 0)

def commandChars (command : Bytes) : FixedBytes 12 :=
  ⟨command.take 12 ++ List.replicate (12 - command.length) 0, by
    simp only [length_append, length_take, length_replicate]
    omega⟩

end CMessageHeader

def NetMsgType.BLOCK : Bytes := [0x62, 0x6c, 0x6f, 0x63, 0x6b]

structure CNetMessage where
  m_recv : Bytes
  m_command : Bytes
  m_valid_netmagic : Bool
  m_valid_header : Bool
  m_valid_checksum : Bool
  m_message_size : UInt32
  deriving DecidableEq, Repr

/-! ### The receiver -/

theorem length_noHeader : ([] : Bytes).length ≤ 24 := by decide

/-- `nHdrPos` and `nDataPos` are the lengths of the buffers. -/
structure V1TransportDeserializer where
  in_data : Bool := false
  hdrbuf : Bytes := []
  hdr : CMessageHeader
  vRecv : Bytes := []
  hdrbuf_le : hdrbuf.length ≤ 24 := by exact length_noHeader

namespace V1TransportDeserializer

def reset (d : V1TransportDeserializer) : V1TransportDeserializer := { hdr := d.hdr }

/-- The bytes taken, or nothing when the message is too large. -/
def readHeader (d : V1TransportDeserializer) (pch : Bytes) :
    Option (Nat × V1TransportDeserializer) :=
  let nCopy := min (24 - d.hdrbuf.length) pch.length
  let hdrbuf := d.hdrbuf ++ pch.take nCopy
  have hle : hdrbuf.length ≤ 24 := by
    have h := d.hdrbuf_le
    simp only [hdrbuf, nCopy, length_append, length_take]
    omega
  if h : hdrbuf.length < 24 then some (nCopy, { d with hdrbuf, hdrbuf_le := hle })
  else
    let hdr := CMessageHeader.unserialize ⟨hdrbuf, by omega⟩
    if MAX_SIZE < hdr.nMessageSize.toNat || MAX_PROTOCOL_MESSAGE_LENGTH < hdr.nMessageSize.toNat
    then none
    else some (nCopy, { d with in_data := true, hdrbuf, hdr, hdrbuf_le := hle })

def readData (d : V1TransportDeserializer) (pch : Bytes) : Nat × V1TransportDeserializer :=
  let nCopy := min (d.hdr.nMessageSize.toNat - d.vRecv.length) pch.length
  (nCopy, { d with vRecv := d.vRecv ++ pch.take nCopy })

def read (d : V1TransportDeserializer) (pch : Bytes) : Option (Nat × V1TransportDeserializer) :=
  if d.in_data then some (d.readData pch) else d.readHeader pch

def complete (d : V1TransportDeserializer) : Bool :=
  d.in_data && d.hdr.nMessageSize.toNat == d.vRecv.length

end V1TransportDeserializer

namespace NodeEnv

variable (E : NodeEnv)

def checksum (data : Bytes) : FixedBytes 4 :=
  ⟨(serializeUInt256 (E.hash256 data)).take 4, by simp [serializeUInt256]⟩

/-- The header of a message, with its size cut to 32 bits. -/
def messageHeader (messageStart : FixedBytes 4) (command data : Bytes) : CMessageHeader where
  pchMessageStart := messageStart
  pchCommand := CMessageHeader.commandChars command
  nMessageSize := UInt32.ofNat data.length
  pchChecksum := E.checksum data

/-- `CConnman::PushMessage`: the bytes that go to the socket. -/
def pushMessage (messageStart : FixedBytes 4) (command data : Bytes) : Bytes :=
  (E.messageHeader messageStart command data).serialize ++ data

def getMessage (messageStart : FixedBytes 4) (d : V1TransportDeserializer) : CNetMessage where
  m_recv := d.vRecv
  m_command := d.hdr.getCommand
  m_valid_netmagic := d.hdr.pchMessageStart.1 == messageStart.1
  m_valid_header := d.hdr.isValid messageStart
  m_valid_checksum := (E.checksum d.vRecv).1 == d.hdr.pchChecksum.1
  m_message_size := d.hdr.nMessageSize

def receiveLoop (messageStart : FixedBytes 4) : Nat → V1TransportDeserializer → Bytes →
    List CNetMessage → Option (V1TransportDeserializer × List CNetMessage)
  | 0, d, pch, vRecvMsg => if pch.isEmpty then some (d, vRecvMsg) else none
  | fuel + 1, d, pch, vRecvMsg =>
    if pch.isEmpty then some (d, vRecvMsg)
    else
      match d.read pch with
      | none => none
      | some (handled, d) =>
        if d.complete then
          receiveLoop messageStart fuel d.reset (pch.drop handled)
            (vRecvMsg ++ [E.getMessage messageStart d])
        else receiveLoop messageStart fuel d (pch.drop handled) vRecvMsg

/-- `CNode::ReceiveMsgBytes`: nothing when the peer is to be disconnected. -/
def receiveMsgBytes (messageStart : FixedBytes 4) (d : V1TransportDeserializer) (pch : Bytes)
    (vRecvMsg : List CNetMessage) : Option (V1TransportDeserializer × List CNetMessage) :=
  E.receiveLoop messageStart pch.length d pch vRecvMsg

def receiveAll (messageStart : FixedBytes 4) : List Bytes → V1TransportDeserializer →
    List CNetMessage → Option (V1TransportDeserializer × List CNetMessage)
  | [], d, vRecvMsg => some (d, vRecvMsg)
  | pch :: rest, d, vRecvMsg =>
    match E.receiveMsgBytes messageStart d pch vRecvMsg with
    | none => none
    | some (d, vRecvMsg) => receiveAll messageStart rest d vRecvMsg

/-! ### What is received -/

def receivedMessage (messageStart : FixedBytes 4) (hdr : CMessageHeader) (data : Bytes) : CNetMessage where
  m_recv := data
  m_command := hdr.getCommand
  m_valid_netmagic := hdr.pchMessageStart.1 == messageStart.1
  m_valid_header := hdr.isValid messageStart
  m_valid_checksum := (E.checksum data).1 == hdr.pchChecksum.1
  m_message_size := hdr.nMessageSize

end NodeEnv

namespace V1TransportDeserializer

variable {d d' : V1TransportDeserializer} {n : Nat} {pch : Bytes}

def Fresh (d : V1TransportDeserializer) : Prop :=
  d.in_data = false ∧ d.hdrbuf = [] ∧ d.vRecv = []

/-- Data after the header, up to its size, within the limit. -/
structure Valid (d : V1TransportDeserializer) : Prop where
  header : d.in_data = false → d.hdrbuf.length < 24 ∧ d.vRecv = []
  data : d.in_data = true → d.vRecv.length ≤ d.hdr.nMessageSize.toNat ∧
    d.hdr.nMessageSize.toNat ≤ MAX_PROTOCOL_MESSAGE_LENGTH

theorem Fresh.valid (h : d.Fresh) : d.Valid :=
  ⟨fun _ => ⟨by rw [h.2.1]; decide, h.2.2⟩, fun hdata => absurd hdata (by simp [h.1])⟩

theorem Valid.lt (h : d.Valid) (hdata : d.in_data = true) (hopen : d.complete = false) :
    d.vRecv.length < d.hdr.nMessageSize.toNat := by
  rw [complete, hdata, Bool.true_and, beq_eq_false_iff_ne] at hopen
  exact (h.data hdata).1.lt_of_ne hopen.symm

/-- What `readHeader` makes of the new content of `hdrbuf`. -/
def withHeader (d : V1TransportDeserializer) (hdrbuf : Bytes) (hle : hdrbuf.length ≤ 24) :
    Option V1TransportDeserializer :=
  if h : hdrbuf.length < 24 then some { d with hdrbuf, hdrbuf_le := hle }
  else
    let hdr := CMessageHeader.unserialize ⟨hdrbuf, by omega⟩
    if MAX_SIZE < hdr.nMessageSize.toNat || MAX_PROTOCOL_MESSAGE_LENGTH < hdr.nMessageSize.toNat
    then none
    else some { d with in_data := true, hdrbuf, hdr, hdrbuf_le := hle }

theorem readHeader_eq (hn : min (24 - d.hdrbuf.length) pch.length = n) {hdrbuf : Bytes}
    (hbuf : d.hdrbuf ++ pch.take n = hdrbuf) (hle : hdrbuf.length ≤ 24) :
    d.readHeader pch = (d.withHeader hdrbuf hle).map (n, ·) := by
  subst hn hbuf
  unfold readHeader withHeader
  dsimp only
  split
  · rfl
  · split <;> rfl

theorem Valid.withHeader (h : d.Valid) (hheader : d.in_data = false) {hdrbuf : Bytes}
    {hle : hdrbuf.length ≤ 24} (hread : d.withHeader hdrbuf hle = some d') : d'.Valid := by
  have hempty := (h.header hheader).2
  unfold V1TransportDeserializer.withHeader at hread
  split at hread
  · rename_i hlt
    cases hread
    exact ⟨fun _ => ⟨hlt, hempty⟩, fun hdata => absurd hdata (by simp [hheader])⟩
  · dsimp only at hread
    split at hread
    · cases hread
    · rename_i hfits
      cases hread
      simp only [Bool.or_eq_true, decide_eq_true_eq, not_or, not_lt] at hfits
      exact ⟨nofun, fun _ => ⟨by simp [hempty], hfits.2⟩⟩

theorem vRecv_of_read (hheader : d.in_data = false) (hread : d.read pch = some (n, d')) :
    d'.vRecv = d.vRecv := by
  rw [V1TransportDeserializer.read, hheader, if_neg Bool.false_ne_true, readHeader] at hread
  dsimp only at hread
  split at hread
  · cases hread
    rfl
  · split at hread <;> cases hread
    rfl

theorem Valid.read (h : d.Valid) (hread : d.read pch = some (n, d')) : d'.Valid := by
  unfold V1TransportDeserializer.read at hread
  split at hread
  · rename_i hdata
    cases hread
    refine ⟨fun hheader => absurd hheader (by simp [hdata]), fun _ => ⟨?_, (h.data hdata).2⟩⟩
    have := (h.data hdata).1
    simp only [length_append, length_take]
    omega
  · rename_i hheader
    rw [Bool.not_eq_true] at hheader
    have hle : (d.hdrbuf ++ pch.take (min (24 - d.hdrbuf.length) pch.length)).length ≤ 24 := by
      have := d.hdrbuf_le
      simp only [length_append, length_take]
      omega
    rw [readHeader_eq rfl rfl hle] at hread
    obtain ⟨d₁, hd₁, heq⟩ := Option.map_eq_some_iff.mp hread
    cases heq
    exact h.withHeader hheader hd₁

/-- **The first byte** may be read alone, unless the header or the message ends with it. -/
theorem Valid.read_cons (h : d.Valid) (hopen : d.complete = false) (byte : UInt8) (pch : Bytes) :
    d.read (byte :: pch) = (d.read [byte]).bind fun r =>
      if r.2.in_data = d.in_data ∧ r.2.complete = false then
        (r.2.read pch).map fun r => (r.1 + 1, r.2)
      else some (1, r.2) := by
  cases hphase : d.in_data with
  | false =>
    obtain ⟨in_data, hdrbuf, hdr, vRecv, hdrbuf_le⟩ := d
    dsimp only at hphase
    subst hphase
    have hlt : hdrbuf.length < 24 := (h.header rfl).1
    have hone : (hdrbuf ++ [byte]).length ≤ 24 := by rwa [length_append, length_singleton]
    have hread : ∀ {d : V1TransportDeserializer} {pch}, d.in_data = false →
        d.read pch = d.readHeader pch := by
      intro d pch hheader
      rw [V1TransportDeserializer.read, hheader, if_neg Bool.false_ne_true]
    rw [hread rfl, hread rfl,
      @readHeader_eq _ 1 [byte] (by simp; omega) (hdrbuf ++ [byte]) rfl hone, Option.bind_map]
    by_cases hmore : (hdrbuf ++ [byte]).length < 24
    · -- the header goes on
      generalize hn : min (24 - (hdrbuf ++ [byte]).length) pch.length = n
      rw [length_append, length_singleton] at hn hmore
      have hle : (hdrbuf ++ byte :: pch.take n).length ≤ 24 := by
        simp only [length_append, length_cons, length_take]
        omega
      have hcons : min (24 - hdrbuf.length) (pch.length + 1) = n + 1 := by omega
      rw [@readHeader_eq _ (n + 1) (byte :: pch) hcons (hdrbuf ++ byte :: pch.take n) rfl hle,
        V1TransportDeserializer.withHeader.eq_def _ _ hone, dif_pos (by simpa using hmore)]
      simp only [Option.bind_some, Function.comp_apply, complete, Bool.false_and, and_self, if_true]
      rw [hread rfl, @readHeader_eq _ n pch (by simpa using hn) (hdrbuf ++ byte :: pch.take n)
        (by simp) hle, Option.map_map]
      rfl
    · have hcons : min (24 - hdrbuf.length) (pch.length + 1) = 1 := by
        rw [length_append, length_singleton] at hmore
        omega
      rw [@readHeader_eq _ 1 (byte :: pch) hcons (hdrbuf ++ [byte]) rfl hone,
        V1TransportDeserializer.withHeader, dif_neg hmore]
      dsimp only
      split
      · rfl
      · simp
  | true =>
    have hlt := h.lt hphase hopen
    have hone : min (d.hdr.nMessageSize.toNat - d.vRecv.length) (0 + 1) = 1 := by omega
    simp only [V1TransportDeserializer.read, hphase, if_true, readData, length_cons, length_nil,
      Option.bind_some, complete, Bool.true_and, true_and, hone, take_succ_cons, take_zero,
      length_append, beq_eq_false_iff_ne]
    split
    · have hn : min (d.hdr.nMessageSize.toNat - d.vRecv.length) (pch.length + 1) =
          min (d.hdr.nMessageSize.toNat - (d.vRecv.length + (0 + 1))) pch.length + 1 := by omega
      rw [hn, take_succ_cons, Option.map_some, append_assoc, singleton_append]
    · have hn : min (d.hdr.nMessageSize.toNat - d.vRecv.length) (pch.length + 1) = 1 := by omega
      rw [hn, take_succ_cons, take_zero]

theorem Valid.read_nil (h : d.Valid) : d.read [] = some (0, d) := by
  cases hphase : d.in_data with
  | false =>
    rw [V1TransportDeserializer.read, hphase, if_neg Bool.false_ne_true,
      @readHeader_eq d 0 [] (by simp) d.hdrbuf (by simp) d.hdrbuf_le,
      V1TransportDeserializer.withHeader, dif_pos (h.header hphase).1]
    rfl
  | true =>
    rw [V1TransportDeserializer.read, hphase, if_pos rfl, readData, length_nil, Nat.min_zero,
      take_zero, append_nil]

theorem Valid.read_pos (h : d.Valid) (hopen : d.complete = false) (hpch : pch ≠ [])
    (hread : d.read pch = some (n, d')) : 0 < n := by
  obtain ⟨byte, rest, rfl⟩ := exists_cons_of_ne_nil hpch
  rw [h.read_cons hopen, Option.bind_eq_some_iff] at hread
  obtain ⟨r, -, hread⟩ := hread
  split at hread
  · obtain ⟨r', -, heq⟩ := Option.map_eq_some_iff.mp hread
    cases heq
    exact Nat.succ_pos _
  · cases hread
    exact Nat.one_pos

theorem read_serialize (h : d.Fresh) {hdr : CMessageHeader}
    (hlimit : hdr.nMessageSize.toNat ≤ MAX_PROTOCOL_MESSAGE_LENGTH) : d.read hdr.serialize =
      some (24, { in_data := true, hdrbuf := hdr.serialize, hdr
                  hdrbuf_le := hdr.serialize_length.le }) := by
  have hfits : ¬ (MAX_SIZE < hdr.nMessageSize.toNat ∨
      MAX_PROTOCOL_MESSAGE_LENGTH < hdr.nMessageSize.toNat) := by
    simp only [MAX_SIZE, MAX_PROTOCOL_MESSAGE_LENGTH] at hlimit ⊢
    omega
  have htake : d.hdrbuf ++ hdr.serialize.take 24 = hdr.serialize := by
    rw [h.2.1, nil_append, ← hdr.serialize_length, take_length]
  rw [V1TransportDeserializer.read, h.1, if_neg Bool.false_ne_true, readHeader_eq
    (by simp [h.2.1]) htake hdr.serialize_length.le, V1TransportDeserializer.withHeader,
    dif_neg (by simp)]
  simp only [hdr.unserialize_serialize, Bool.or_eq_true, decide_eq_true_eq, hfits, if_false,
    Option.map_some, h.2.2]

end V1TransportDeserializer

/-- What a peer has sent so far, as long as it is not to be disconnected. -/
structure Inbox where
  d : Option V1TransportDeserializer
  vRecvMsg : List CNetMessage

def Limited (vRecvMsg : List CNetMessage) : Prop :=
  ∀ msg ∈ vRecvMsg, msg.m_recv.length ≤ MAX_PROTOCOL_MESSAGE_LENGTH

structure Inbox.Ok (inbox : Inbox) : Prop where
  valid : ∀ d, inbox.d = some d → d.Valid ∧ d.complete = false
  limited : Limited inbox.vRecvMsg

namespace NodeEnv

variable (E : NodeEnv) (messageStart : FixedBytes 4)

/-- The messages after a read, with the one that it may have completed. -/
def arrive (vRecvMsg : List CNetMessage) (d : V1TransportDeserializer) : Inbox :=
  if d.complete then ⟨some d.reset, vRecvMsg ++ [E.getMessage messageStart d]⟩
  else ⟨some d, vRecvMsg⟩

def feed (inbox : Inbox) (byte : UInt8) : Inbox :=
  match inbox.d with
  | none => inbox
  | some d =>
    match d.read [byte] with
    | none => { inbox with d := none }
    | some (_, d) => E.arrive messageStart inbox.vRecvMsg d

variable {E messageStart} {d : V1TransportDeserializer}

theorem arrive_ok {vRecvMsg : List CNetMessage} (h : Limited vRecvMsg) (hvalid : d.Valid) :
    (E.arrive messageStart vRecvMsg d).Ok := by
  rw [arrive]
  split
  · rename_i hcomplete
    rw [V1TransportDeserializer.complete, Bool.and_eq_true, beq_iff_eq] at hcomplete
    refine ⟨?_, fun msg hmsg => ?_⟩
    · rintro _ ⟨⟩
      exact ⟨V1TransportDeserializer.Fresh.valid ⟨rfl, rfl, rfl⟩, rfl⟩
    · rcases mem_append.mp hmsg with hmsg | hmsg
      · exact h msg hmsg
      · rw [mem_singleton.mp hmsg]
        exact hcomplete.2 ▸ (hvalid.data hcomplete.1).2
  · rename_i hopen
    refine ⟨?_, h⟩
    rintro _ ⟨⟩
    exact ⟨hvalid, Bool.eq_false_iff.mpr hopen⟩

theorem foldl_feed_none (vRecvMsg : List CNetMessage) (pch : Bytes) :
    pch.foldl (E.feed messageStart) ⟨none, vRecvMsg⟩ = ⟨none, vRecvMsg⟩ := by
  induction pch with
  | nil => rfl
  | cons byte rest ih => exact ih

/-- **One read** takes its bytes one by one. -/
theorem foldl_feed_read (hvalid : d.Valid) (hopen : d.complete = false)
    (vRecvMsg : List CNetMessage) (pch : Bytes) :
    match d.read pch with
    | none => pch.foldl (E.feed messageStart) ⟨some d, vRecvMsg⟩ = ⟨none, vRecvMsg⟩
    | some (n, d') => (pch.take n).foldl (E.feed messageStart) ⟨some d, vRecvMsg⟩ =
        E.arrive messageStart vRecvMsg d' := by
  induction pch generalizing d with
  | nil =>
    rw [hvalid.read_nil]
    simp [arrive, hopen]
  | cons byte rest ih =>
    rw [hvalid.read_cons hopen]
    cases hone : d.read [byte] with
    | none =>
      have hfeed : E.feed messageStart ⟨some d, vRecvMsg⟩ byte = ⟨none, vRecvMsg⟩ := by
        simp only [feed, hone]
      simp only [Option.bind_none, foldl_cons, hfeed, foldl_feed_none]
    | some r =>
      have hfeed : E.feed messageStart ⟨some d, vRecvMsg⟩ byte =
          E.arrive messageStart vRecvMsg r.2 := by
        simp only [feed, hone]
      rw [Option.bind_some]
      split_ifs with hgo
      · have hnext := ih (hvalid.read hone) hgo.2
        rw [arrive, hgo.2, if_neg Bool.false_ne_true] at hfeed
        cases hrest : r.2.read rest with
        | none =>
          rw [hrest] at hnext
          simpa only [Option.map_none, foldl_cons, hfeed] using hnext
        | some r' =>
          rw [hrest] at hnext
          simpa only [Option.map_some, take_succ_cons, foldl_cons, hfeed] using hnext
      · simpa only [take_succ_cons, take_zero, foldl_cons, foldl_nil] using hfeed

theorem feed_ok {inbox : Inbox} (h : inbox.Ok) (byte : UInt8) :
    (E.feed messageStart inbox byte).Ok := by
  obtain ⟨_ | d, vRecvMsg⟩ := inbox
  · exact h
  · unfold feed
    dsimp only
    split
    · exact ⟨nofun, h.limited⟩
    · rename_i hread
      exact arrive_ok h.limited ((h.valid d rfl).1.read hread)

theorem foldl_feed_ok {inbox : Inbox} (h : inbox.Ok) (pch : Bytes) :
    (pch.foldl (E.feed messageStart) inbox).Ok := by
  induction pch generalizing inbox with
  | nil => exact h
  | cons byte rest ih => exact ih (feed_ok h byte)

def handedOver (inbox : Inbox) : Option (V1TransportDeserializer × List CNetMessage) :=
  inbox.d.map (·, inbox.vRecvMsg)

theorem receiveLoop_eq (fuel : Nat) : ∀ {d : V1TransportDeserializer} {pch : Bytes}
    {vRecvMsg : List CNetMessage}, pch.length ≤ fuel → Inbox.Ok ⟨some d, vRecvMsg⟩ →
      E.receiveLoop messageStart fuel d pch vRecvMsg =
        handedOver (pch.foldl (E.feed messageStart) ⟨some d, vRecvMsg⟩) := by
  induction fuel with
  | zero =>
    intro d pch vRecvMsg hfuel h
    obtain rfl := length_eq_zero_iff.mp (Nat.le_zero.mp hfuel)
    rfl
  | succ fuel ih =>
    intro d pch vRecvMsg hfuel h
    by_cases hpch : pch = []
    · subst hpch
      rfl
    obtain ⟨hvalid, hopen⟩ := h.valid d rfl
    have hfeed := @foldl_feed_read E messageStart d hvalid hopen vRecvMsg pch
    rw [receiveLoop, if_neg (by simpa using hpch)]
    cases hread : d.read pch with
    | none =>
      rw [hread] at hfeed
      simp only [hfeed]
      rfl
    | some r =>
      rw [hread] at hfeed
      have hpos := hvalid.read_pos hopen hpch hread
      have hok := @arrive_ok E messageStart _ _ h.limited (hvalid.read hread)
      have hrest : (pch.drop r.1).length ≤ fuel := by
        rw [length_drop]
        omega
      conv_rhs => rw [← take_append_drop r.1 pch, foldl_append, hfeed]
      rw [arrive] at hok ⊢
      dsimp only
      split at hok
      · rename_i hcomplete
        rw [if_pos hcomplete, if_pos hcomplete]
        exact ih hrest hok
      · rename_i hmore
        rw [if_neg hmore, if_neg hmore]
        exact ih hrest hok

/-- **However the bytes are cut**, they are received one by one. -/
theorem receiveAll_eq (chunks : List Bytes) : ∀ {d : V1TransportDeserializer}
    {vRecvMsg : List CNetMessage}, Inbox.Ok ⟨some d, vRecvMsg⟩ →
      E.receiveAll messageStart chunks d vRecvMsg =
        handedOver (chunks.flatten.foldl (E.feed messageStart) ⟨some d, vRecvMsg⟩) := by
  induction chunks with
  | nil =>
    intro d vRecvMsg _
    rfl
  | cons pch rest ih =>
    intro d vRecvMsg h
    have hok := @foldl_feed_ok E messageStart _ h pch
    rw [receiveAll, receiveMsgBytes, receiveLoop_eq _ le_rfl h, flatten_cons, foldl_append]
    generalize pch.foldl (E.feed messageStart) ⟨some d, vRecvMsg⟩ = inbox at *
    obtain ⟨_ | d', vRecvMsg'⟩ := inbox
    · rw [foldl_feed_none]
      rfl
    · exact ih hok

theorem fresh_ok (hfresh : d.Fresh) : Inbox.Ok ⟨some d, []⟩ := by
  refine ⟨?_, nofun⟩
  rintro _ ⟨⟩
  exact ⟨hfresh.valid, by rw [V1TransportDeserializer.complete, hfresh.1]; rfl⟩

/-- **A message within the limit is received**, however its bytes are cut. -/
theorem receiveAll_message (E : NodeEnv) (messageStart : FixedBytes 4) {hdr : CMessageHeader}
    {data : Bytes} (hsize : hdr.nMessageSize.toNat = data.length)
    (hlimit : data.length ≤ MAX_PROTOCOL_MESSAGE_LENGTH) (hfresh : d.Fresh) {chunks : List Bytes}
    (hbytes : chunks.flatten = hdr.serialize ++ data) :
    ∃ d', E.receiveAll messageStart chunks d [] =
      some (d', [E.receivedMessage messageStart hdr data]) := by
  have hok := fresh_ok hfresh
  have hread := V1TransportDeserializer.read_serialize hfresh (hsize.trans_le hlimit)
  have hvalid := hfresh.valid.read hread
  have hheader := @foldl_feed_read E messageStart d hfresh.valid (hok.valid d rfl).2 []
    hdr.serialize
  rw [hread] at hheader
  dsimp only at hheader
  rw [take_of_length_le hdr.serialize_length.le] at hheader
  rw [receiveAll_eq chunks hok, hbytes, foldl_append, hheader, arrive]
  split
  · -- the message has no data
    rename_i hcomplete
    have hempty : data = [] := by
      simpa [V1TransportDeserializer.complete, hsize] using hcomplete
    subst hempty
    exact ⟨_, rfl⟩
  · rename_i hopen
    rw [Bool.not_eq_true] at hopen
    have hdata := @foldl_feed_read E messageStart _ hvalid hopen [] data
    simp only [V1TransportDeserializer.read, if_true, V1TransportDeserializer.readData, length_nil,
      Nat.sub_zero, hsize, Nat.min_self, take_length, nil_append] at hdata
    rw [hdata, arrive, if_pos (by simp [V1TransportDeserializer.complete, hsize])]
    exact ⟨_, rfl⟩

/-- **No message beyond the limit is received.** -/
theorem receiveAll_size (E : NodeEnv) (messageStart : FixedBytes 4) {chunks : List Bytes}
    {d' : V1TransportDeserializer} {received : List CNetMessage} (hfresh : d.Fresh)
    (h : E.receiveAll messageStart chunks d [] = some (d', received)) : Limited received := by
  have hok := @foldl_feed_ok E messageStart _ (fresh_ok hfresh) chunks.flatten
  rw [receiveAll_eq chunks (fresh_ok hfresh)] at h
  obtain ⟨_, -, heq⟩ := Option.map_eq_some_iff.mp h
  cases heq
  exact hok.limited

end NodeEnv

end VBitcoin
