import VBitcoin.Primitives
import VBitcoin.GuardedRuns

/-!
**Requesting announced items from a peer** (`net_processing.cpp`, `vbk/p2p_sync.cpp`) —
transactions and PoP payloads are announced by INV, scheduled by `RequestTx`, requested by
`SendMessages`, and answered by the payload or by NOTFOUND.  The state also lists the requests
not answered and the answered ones.
-/

namespace VBitcoin

open List

/-! ### Inventory -/

def MSG_WITNESS_FLAG : UInt32 := 0x40000000
def MSG_TX : UInt32 := 1
def MSG_BLOCK : UInt32 := 2
def MSG_FILTERED_BLOCK : UInt32 := 3
def MSG_CMPCT_BLOCK : UInt32 := 4
def MSG_WITNESS_BLOCK : UInt32 := MSG_BLOCK ||| MSG_WITNESS_FLAG
def MSG_WITNESS_TX : UInt32 := MSG_TX ||| MSG_WITNESS_FLAG
def MSG_POP_ATV : UInt32 := 8
def MSG_POP_VTB : UInt32 := 9
def MSG_POP_VBK : UInt32 := 10

structure CInv where
  type : UInt32
  hash : UInt256
  deriving DecidableEq, Repr

namespace CInv

def isTx (inv : CInv) : Bool := inv.type == MSG_TX || inv.type == MSG_WITNESS_TX

def isPop (inv : CInv) : Bool :=
  inv.type == MSG_POP_ATV || inv.type == MSG_POP_VTB || inv.type == MSG_POP_VBK

def isBlock (inv : CInv) : Bool :=
  inv.type == MSG_BLOCK || inv.type == MSG_FILTERED_BLOCK || inv.type == MSG_CMPCT_BLOCK ||
    inv.type == MSG_WITNESS_BLOCK

end CInv

inductive PopKind where
  | atv
  | vtb
  | vbk

def PopKind.getType : PopKind → UInt32
  | .atv => MSG_POP_ATV
  | .vtb => MSG_POP_VTB
  | .vbk => MSG_POP_VBK

/-! ### Answering a GETDATA -/

/-- Not found, left over, and the room before `fPauseSend`. -/
def serveLoop (serves found : CInv → Bool) : Nat → List CInv → List CInv × List CInv × Nat
  | budget, [] => ([], [], budget)
  | 0, queue => ([], queue, 0)
  | budget + 1, inv :: queue =>
    if serves inv then
      let (vNotFound, rest, budget) := serveLoop serves found budget queue
      (if found inv then vNotFound else inv :: vNotFound, rest, budget)
    else ([], inv :: queue, budget + 1)

/-- The entries of the NOTFOUND message, and what stays in `vRecvGetData`. -/
def processGetData (txRelay : Bool) (found : CInv → Bool) (budget : Nat)
    (vRecvGetData : List CInv) : List CInv × List CInv :=
  let (notFoundTx, rest, budget) :=
    if txRelay then serveLoop CInv.isTx found budget vRecvGetData else ([], vRecvGetData, budget)
  let (notFoundPop, rest, budget) :=
    if txRelay then serveLoop CInv.isPop found budget rest else ([], rest, budget)
  let rest :=
    match rest with
    | inv :: queue => if 0 < budget && inv.isBlock then queue else inv :: queue
    | [] => []
  (notFoundTx ++ notFoundPop, rest)

/-! ### The state of a peer -/

def MAX_INV_SZ : Nat := 50000
def MAX_PEER_TX_IN_FLIGHT : Nat := 100
def MAX_PEER_TX_ANNOUNCEMENTS : Nat := 2 * MAX_INV_SZ
def MAX_BLOCKS_IN_TRANSIT_PER_PEER : Nat := 16

/-- Durations are in microseconds. -/
def INBOUND_PEER_TX_DELAY : Int := 2000000
def GETDATA_TX_INTERVAL : Int := 60000000
def TX_EXPIRY_INTERVAL : Int := GETDATA_TX_INTERVAL * 10

structure TxDownloadState where
  /-- `m_tx_process_time`, in the order of the times. -/
  processTime : List (Int × CInv) := []
  announced : List UInt256 := []
  inFlight : List (UInt256 × Int) := []
  checkExpiryTimer : Int := 0

namespace TxDownloadState

/-- `m_tx_process_time.emplace`: after the entries of the same time. -/
def emplaceTime (d : TxDownloadState) (time : Int) (inv : CInv) : TxDownloadState :=
  { d with processTime := d.processTime.takeWhile (·.1 ≤ time) ++
      (time, inv) :: d.processTime.dropWhile (·.1 ≤ time) }

/-- `m_tx_in_flight.emplace`: a hash that is there stays as it is. -/
def emplaceInFlight (d : TxDownloadState) (hash : UInt256) (time : Int) : TxDownloadState :=
  if hash ∈ d.inFlight.map Prod.fst then d
  else { d with inFlight := (hash, time) :: d.inFlight }

def release (d : TxDownloadState) (hash : UInt256) : TxDownloadState :=
  { d with
    announced := d.announced.filter (· ≠ hash)
    inFlight := d.inFlight.filter (·.1 ≠ hash) }

def expire (d : TxDownloadState) (currentTime rand : Int) : TxDownloadState :=
  if d.checkExpiryTimer ≤ currentTime then
    let expired := d.inFlight.filter fun entry => entry.2 ≤ currentTime - TX_EXPIRY_INTERVAL
    { d with
      announced := d.announced.filter (· ∉ expired.map Prod.fst)
      inFlight := d.inFlight.filter fun entry => ¬ entry.2 ≤ currentTime - TX_EXPIRY_INTERVAL
      checkExpiryTimer := currentTime + TX_EXPIRY_INTERVAL / 2 + rand }
  else d

/-- The item takes a place in `m_tx_announced` or `m_tx_in_flight`. -/
def HoldsSlot (d : TxDownloadState) (hash : UInt256) : Prop :=
  hash ∈ d.announced ∨ hash ∈ d.inFlight.map Prod.fst

end TxDownloadState

structure PeerConfig where
  relayTxes : Bool := true
  permitRelay : Bool := false
  txRelay : Bool := true
  fPreferredDownload : Bool := true
  /-- The condition of `GetFetchFlags`. -/
  witness : Bool := true

def PeerConfig.getFetchFlags (P : PeerConfig) : UInt32 := if P.witness then MSG_WITNESS_FLAG else 0

def PeerConfig.fetchInv (P : PeerConfig) (inv : CInv) : CInv :=
  if inv.type = MSG_TX then { inv with type := MSG_TX ||| P.getFetchFlags } else inv

def PeerConfig.fBlocksOnly (P : PeerConfig) : Bool :=
  if P.permitRelay then false else !P.relayTxes || !P.txRelay

/-- The peer sends a payload in violation of the protocol. -/
def PeerConfig.violation (P : PeerConfig) : Bool := (!P.relayTxes && !P.permitRelay) || !P.txRelay

/-- What a handler reads of the rest of the node. -/
structure NodeView where
  alreadyHave : CInv → Bool
  /-- `fImporting`, `fReindex` or `IsInitialBlockDownload`. -/
  importing : Bool := false
  popActive : Bool := true
  currentTime : Int
  rand : Nat → Int

structure PeerState where
  download : TxDownloadState := {}
  /-- `g_already_asked_for`, zero for the hashes it does not have. -/
  alreadyAskedFor : UInt256 → Int := fun _ => 0
  fDisconnect : Bool := false
  requested : List CInv := []
  /-- The answered ones that were not announced or requested again. -/
  answered : List CInv := []

/-! ### The handlers -/

def calculateTxGetDataTime (lastRequestTime currentTime rand : Int) (useInboundDelay : Bool) :
    Int :=
  let processTime :=
    if lastRequestTime = 0 then currentTime else lastRequestTime + GETDATA_TX_INTERVAL + rand
  if useInboundDelay then processTime + INBOUND_PEER_TX_DELAY else processTime

namespace PeerState

variable (P : PeerConfig) (view : NodeView)

def answer (s : PeerState) (answers : CInv → Bool) : PeerState :=
  { s with
    requested := s.requested.filter fun inv => !answers inv
    answered := s.requested.filter answers ++ s.answered }

/-- The item is announced or requested again. -/
def reopen (s : PeerState) (hash : UInt256) : PeerState :=
  { s with answered := s.answered.filter fun inv => inv.hash ≠ hash }

def withDownload (s : PeerState) (download : TxDownloadState) : PeerState := { s with download }

def requestTx (s : PeerState) (inv : CInv) (rand : Int) : PeerState :=
  if MAX_PEER_TX_ANNOUNCEMENTS ≤ s.download.announced.length ∨
      MAX_PEER_TX_ANNOUNCEMENTS ≤ s.download.processTime.length ∨
      inv.hash ∈ s.download.announced then s
  else
    let processTime := calculateTxGetDataTime (s.alreadyAskedFor inv.hash) view.currentTime rand
      (!P.fPreferredDownload)
    let download := { s.download with announced := inv.hash :: s.download.announced }
    (s.reopen inv.hash).withDownload (download.emplaceTime processTime inv)

/-- The loop of the INV handler; blocks are left to the headers. -/
def invLoop : List CInv → (Nat → Int) → PeerState → PeerState
  | [], _, s => s
  | inv :: vInv, rand, s =>
    let fAlreadyHave := view.alreadyHave inv
    let inv := P.fetchInv inv
    if inv.type = MSG_BLOCK then invLoop vInv rand s
    else if P.fBlocksOnly then { s with fDisconnect := true }
    else if !fAlreadyHave && !view.importing then
      invLoop vInv (fun i => rand (i + 1)) (s.requestTx P view inv (rand 0))
    else invLoop vInv rand s

def processInv (s : PeerState) (vInv : List CInv) : PeerState :=
  if MAX_INV_SZ < vInv.length then s else s.invLoop P view vInv view.rand

def request (s : PeerState) (inv : CInv) : PeerState :=
  let s := s.reopen inv.hash
  { s with
    download := s.download.emplaceInFlight inv.hash view.currentTime
    alreadyAskedFor := fun hash =>
      if hash = inv.hash then view.currentTime else s.alreadyAskedFor hash
    requested := inv :: s.requested }

/-- The loop of `SendMessages`; `none` when it takes more rounds than the fuel. -/
def requestLoop : Nat → (Nat → Int) → PeerState → Option PeerState
  | 0, _, _ => none
  | fuel + 1, rand, s =>
    match s.download.processTime with
    | [] => some s
    | (time, inv) :: rest =>
      if view.currentTime < time ∨ MAX_PEER_TX_IN_FLIGHT ≤ s.download.inFlight.length then some s
      else
        let s := s.withDownload { s.download with processTime := rest }
        let inv := P.fetchInv inv
        if view.alreadyHave inv then
          requestLoop fuel rand (s.withDownload (s.download.release inv.hash))
        else if s.alreadyAskedFor inv.hash ≤ view.currentTime - GETDATA_TX_INTERVAL then
          requestLoop fuel rand (s.request view inv)
        else
          let nextProcessTime := calculateTxGetDataTime (s.alreadyAskedFor inv.hash)
            view.currentTime (rand 0) (!P.fPreferredDownload)
          requestLoop fuel (fun i => rand (i + 1))
            (s.withDownload (s.download.emplaceTime nextProcessTime inv))

/-- The part of `SendMessages` that requests items other than blocks. -/
def sendMessages (s : PeerState) : Option PeerState :=
  let s := s.withDownload (s.download.expire view.currentTime (view.rand 0))
  s.requestLoop P view (s.download.processTime.length + 1) fun i => view.rand (i + 1)

def parentLoop : List UInt256 → (Nat → Int) → PeerState → PeerState
  | [], _, s => s
  | hash :: parents, rand, s =>
    let inv : CInv := ⟨MSG_TX ||| P.getFetchFlags, hash⟩
    if view.alreadyHave inv then parentLoop parents rand s
    else parentLoop parents (fun i => rand (i + 1)) (s.requestTx P view inv (rand 0))

/-- `parents` are those of an orphan that is kept. -/
def processTx (s : PeerState) (txid : UInt256) (parents : List UInt256) : PeerState :=
  let s := s.answer fun inv => inv.isTx && inv.hash == txid
  if P.violation then { s with fDisconnect := true }
  else (s.withDownload (s.download.release txid)).parentLoop P view parents view.rand

/-- POPATV, POPVTB and POPVBK; unknown commands as long as PoP is not active. -/
def processPopPayload (s : PeerState) (kind : PopKind) (id : UInt256) : PeerState :=
  let s := s.answer fun inv => inv == ⟨kind.getType, id⟩
  if view.popActive then
    if P.violation then { s with fDisconnect := true }
    else s.withDownload (s.download.release id)
  else s

def notFoundLoop : List CInv → TxDownloadState → TxDownloadState
  | [], d => d
  | inv :: vInv, d =>
    if inv.isTx && decide (inv.hash ∈ d.inFlight.map Prod.fst) then
      notFoundLoop vInv (d.release inv.hash)
    else notFoundLoop vInv d

def processNotFound (s : PeerState) (vInv : List CInv) : PeerState :=
  if vInv.length ≤ MAX_PEER_TX_IN_FLIGHT + MAX_BLOCKS_IN_TRANSIT_PER_PEER then
    s.withDownload (notFoundLoop vInv s.download)
  else s

end PeerState

/-! ### Runs -/

inductive PeerEvent where
  | inv (view : NodeView) (vInv : List CInv)
  | sendMessages (view : NodeView)
  | tx (view : NodeView) (txid : UInt256) (parents : List UInt256)
  | popPayload (view : NodeView) (kind : PopKind) (id : UInt256)
  /-- The peer runs `ProcessGetData`, and its NOTFOUND message comes in. -/
  | getData (txRelay : Bool) (found : CInv → Bool) (budget : Nat) (vRecvGetData : List CInv)
  /-- A NOTFOUND message that answers nothing. -/
  | notFound (vInv : List CInv)
  /-- `g_already_asked_for` changes because of other peers. -/
  | otherPeers (alreadyAskedFor : UInt256 → Int)

namespace PeerState

/-- One event; a peer that is being disconnected is not served any more. -/
def step (P : PeerConfig) (event : PeerEvent) (s : PeerState) : Option PeerState :=
  if s.fDisconnect then none
  else
    match event with
    | .inv view vInv => some (s.processInv P view vInv)
    | .sendMessages view => s.sendMessages P view
    | .tx view txid parents => some (s.processTx P view txid parents)
    | .popPayload view kind id => some (s.processPopPayload P view kind id)
    | .getData txRelay found budget vRecvGetData =>
      let vNotFound := (processGetData txRelay found budget vRecvGetData).1
      some ((s.answer fun inv => decide (inv ∈ vNotFound)).processNotFound vNotFound)
    | .notFound vInv => some (s.processNotFound vInv)
    | .otherPeers alreadyAskedFor => some { s with alreadyAskedFor }

def Released (s : PeerState) : Prop := ∀ inv ∈ s.answered, ¬ s.download.HoldsSlot inv.hash

/-- No answered item holds a slot of a peer that stays connected. -/
def Good (s : PeerState) : Prop := s.fDisconnect = false → s.Released

/-- PoP payloads only while active; an item with a slot is a transaction in flight. -/
def Meets (s : PeerState) : PeerEvent → Prop
  | .popPayload view kind id => s.fDisconnect = false → view.popActive = false →
      ⟨kind.getType, id⟩ ∈ s.requested → ¬ s.download.HoldsSlot id
  | .getData txRelay found budget vRecvGetData => s.fDisconnect = false →
      ∀ inv ∈ s.requested, inv ∈ (processGetData txRelay found budget vRecvGetData).1 →
        s.download.HoldsSlot inv.hash →
        (processGetData txRelay found budget vRecvGetData).1.length ≤
            MAX_PEER_TX_IN_FLIGHT + MAX_BLOCKS_IN_TRANSIT_PER_PEER ∧
          inv.hash ∈ s.download.inFlight.map Prod.fst ∧
          ∃ entry ∈ (processGetData txRelay found budget vRecvGetData).1,
            entry.isTx = true ∧ entry.hash = inv.hash
  | _ => True

end PeerState

/-! ### Slots -/

namespace TxDownloadState

variable {d : TxDownloadState} {hash other : UInt256}

theorem mem_inFlight_release :
    other ∈ (d.release hash).inFlight.map Prod.fst ↔
      other ∈ d.inFlight.map Prod.fst ∧ other ≠ hash := by
  simp only [release, mem_map, mem_filter, decide_eq_true_eq]
  constructor
  · rintro ⟨entry, ⟨hentry, hne⟩, rfl⟩
    exact ⟨⟨entry, hentry, rfl⟩, hne⟩
  · rintro ⟨⟨entry, hentry, rfl⟩, hne⟩
    exact ⟨entry, ⟨hentry, hne⟩, rfl⟩

theorem holdsSlot_release :
    (d.release hash).HoldsSlot other ↔ d.HoldsSlot other ∧ other ≠ hash := by
  rw [HoldsSlot, mem_inFlight_release, HoldsSlot, or_and_right]
  simp only [release, mem_filter, decide_eq_true_eq]

theorem HoldsSlot.of_emplaceInFlight {time : Int}
    (h : (d.emplaceInFlight hash time).HoldsSlot other) : other = hash ∨ d.HoldsSlot other := by
  unfold emplaceInFlight at h
  split at h
  · exact .inr h
  · rcases h with h | h
    · exact .inr (.inl h)
    · rcases mem_cons.mp h with rfl | h
      · exact .inl rfl
      · exact .inr (.inr h)

theorem HoldsSlot.of_expire {currentTime rand : Int}
    (h : (d.expire currentTime rand).HoldsSlot hash) : d.HoldsSlot hash := by
  unfold expire at h
  split at h
  · rcases h with h | h
    · exact .inl (mem_of_mem_filter h)
    · obtain ⟨entry, hentry, rfl⟩ := mem_map.mp h
      exact .inr (mem_map_of_mem (mem_of_mem_filter hentry))
  · exact h

end TxDownloadState

namespace PeerState

variable {P : PeerConfig} {view : NodeView} {s s' : PeerState}

theorem holdsSlot_notFoundLoop {hash : UInt256} : ∀ (vInv : List CInv) (d : TxDownloadState),
    (notFoundLoop vInv d).HoldsSlot hash ↔
      d.HoldsSlot hash ∧ ¬ (hash ∈ d.inFlight.map Prod.fst ∧
        ∃ entry ∈ vInv, entry.isTx = true ∧ entry.hash = hash)
  | [], d => by simp [notFoundLoop]
  | inv :: vInv, d => by
    simp only [notFoundLoop, Bool.and_eq_true, decide_eq_true_eq, exists_mem_cons_iff]
    split
    · rename_i hfree
      rw [holdsSlot_notFoundLoop vInv, TxDownloadState.holdsSlot_release,
        TxDownloadState.mem_inFlight_release]
      by_cases heq : hash = inv.hash
      · subst heq
        simp [hfree]
      · have hne : ¬ inv.hash = hash := fun h => heq h.symm
        simp [heq, hne]
    · rename_i hkeep
      rw [holdsSlot_notFoundLoop vInv]
      -- the entry is of another type, or its item is not in flight
      have hentry : ¬ (hash ∈ d.inFlight.map Prod.fst ∧ inv.isTx = true ∧ inv.hash = hash) := by
        rintro ⟨hflight, htx, rfl⟩
        exact hkeep ⟨htx, hflight⟩
      rw [and_or_left, or_iff_right hentry]

/-! ### Answered items stay released -/

theorem Released.of (hs : s.Released) (h : ∀ inv ∈ s'.answered, inv ∈ s.answered ∧
    (s'.download.HoldsSlot inv.hash → s.download.HoldsSlot inv.hash)) : s'.Released := by
  intro inv hinv hslot
  exact hs inv (h inv hinv).1 ((h inv hinv).2 hslot)

variable {d : TxDownloadState} {hash : UInt256} {event : PeerEvent} {time : Int}

theorem Released.withDownload (hs : s.Released)
    (h : ∀ hash, d.HoldsSlot hash → s.download.HoldsSlot hash) : (s.withDownload d).Released :=
  hs.of fun inv hinv => ⟨hinv, h inv.hash⟩

theorem Released.requestTx (hs : s.Released) (inv : CInv) (rand : Int) :
    (s.requestTx P view inv rand).Released := by
  unfold PeerState.requestTx
  split
  · exact hs
  · apply hs.of
    intro a ha
    obtain ⟨ha, hne⟩ := mem_filter.mp ha
    refine ⟨ha, fun hslot => ?_⟩
    rcases hslot with hslot | hslot
    · rcases mem_cons.mp hslot with heq | hslot
      · exact absurd heq (of_decide_eq_true hne)
      · exact .inl hslot
    · exact .inr hslot

theorem Released.request (hs : s.Released) (inv : CInv) : (s.request view inv).Released := by
  apply hs.of
  intro a ha
  obtain ⟨ha, hne⟩ := mem_filter.mp ha
  refine ⟨ha, fun hslot => ?_⟩
  rcases hslot.of_emplaceInFlight with heq | hslot
  · exact absurd heq (of_decide_eq_true hne)
  · exact hslot

theorem Released.release (hs : s.Released) (hash : UInt256) :
    (s.withDownload (s.download.release hash)).Released :=
  hs.withDownload fun _ hslot => (TxDownloadState.holdsSlot_release.mp hslot).1

theorem Released.invLoop : ∀ {vInv : List CInv} {rand : Nat → Int} {s : PeerState},
    s.Released → (s.invLoop P view vInv rand).Released
  | [], _, _, hs => hs
  | inv :: vInv, rand, s, hs => by
    simp only [PeerState.invLoop]
    split
    · exact hs.invLoop
    · split
      · exact hs
      · split
        · exact (hs.requestTx _ _).invLoop
        · exact hs.invLoop

theorem Released.requestLoop : ∀ {fuel : Nat} {rand : Nat → Int} {s : PeerState}, s.Released →
    s.requestLoop P view fuel rand = some s' → s'.Released
  | 0, _, _, _, h => by cases h
  | fuel + 1, rand, s, hs, h => by
    unfold PeerState.requestLoop at h
    split at h
    · exact Option.some.inj h ▸ hs
    · rename_i time inv rest hqueue
      split at h
      · exact Option.some.inj h ▸ hs
      · -- taking the item off the queue changes no slot
        have htaken : (s.withDownload { s.download with processTime := rest }).Released :=
          hs.withDownload fun _ hslot => hslot
        simp only at h
        split at h
        · exact (htaken.release _).requestLoop h
        · split at h
          · exact (htaken.request _).requestLoop h
          · refine Released.requestLoop ?_ h
            exact htaken.withDownload fun _ hslot => hslot

theorem Released.sendMessages (hs : s.Released) (h : s.sendMessages P view = some s') :
    s'.Released :=
  (hs.withDownload fun _ hslot => hslot.of_expire).requestLoop h

theorem Released.parentLoop : ∀ {parents : List UInt256} {rand : Nat → Int} {s : PeerState},
    s.Released → (s.parentLoop P view parents rand).Released
  | [], _, _, hs => hs
  | hash :: parents, rand, s, hs => by
    simp only [PeerState.parentLoop]
    split
    · exact hs.parentLoop
    · exact (hs.requestTx _ _).parentLoop

theorem Released.answer_release (hs : s.Released) {answers : CInv → Bool}
    (hanswers : ∀ inv, answers inv = true → inv.hash = hash) :
    ((s.answer answers).withDownload (s.download.release hash)).Released := by
  intro inv hinv hslot
  obtain ⟨hslot, hne⟩ := TxDownloadState.holdsSlot_release.mp hslot
  rcases mem_append.mp hinv with hopen | hinv
  · exact hne (hanswers inv (mem_filter.mp hopen).2)
  · exact hs inv hinv hslot

theorem good_of_disconnect (h : s.fDisconnect = true) : s.Good := by
  intro hconnected
  rw [h] at hconnected
  cases hconnected

theorem Released.processTx (hs : s.Released) (txid : UInt256) (parents : List UInt256) :
    (s.processTx P view txid parents).Good := by
  unfold PeerState.processTx
  split
  · exact good_of_disconnect rfl
  · intro _
    apply Released.parentLoop
    apply hs.answer_release
    intro inv hinv
    exact beq_iff_eq.mp (Bool.and_eq_true_iff.mp hinv).2

theorem Released.processPopPayload (hs : s.Released) {kind : PopKind} {id : UInt256}
    (hmeets : view.popActive = false → ⟨kind.getType, id⟩ ∈ s.requested →
      ¬ s.download.HoldsSlot id) : (s.processPopPayload P view kind id).Good := by
  have hanswers : ∀ inv : CInv, (inv == ⟨kind.getType, id⟩) = true → inv.hash = id := by
    intro inv hinv
    rw [beq_iff_eq.mp hinv]
  unfold PeerState.processPopPayload
  split
  · split
    · exact good_of_disconnect rfl
    · exact fun _ => hs.answer_release hanswers
  · rename_i hactive
    intro _ inv hinv hslot
    rcases mem_append.mp hinv with hopen | hinv
    · obtain ⟨hopen, heq⟩ := mem_filter.mp hopen
      obtain rfl := beq_iff_eq.mp heq
      exact hmeets (Bool.eq_false_iff.mpr hactive) hopen hslot
    · exact hs inv hinv hslot

theorem Released.getData (hs : s.Released) {vNotFound : List CInv}
    (hmeets : ∀ inv ∈ s.requested, inv ∈ vNotFound → s.download.HoldsSlot inv.hash →
      vNotFound.length ≤ MAX_PEER_TX_IN_FLIGHT + MAX_BLOCKS_IN_TRANSIT_PER_PEER ∧
        inv.hash ∈ s.download.inFlight.map Prod.fst ∧
        ∃ entry ∈ vNotFound, entry.isTx = true ∧ entry.hash = inv.hash) :
    ((s.answer fun inv => decide (inv ∈ vNotFound)).processNotFound vNotFound).Released := by
  unfold PeerState.processNotFound
  split
  · intro inv hinv hslot
    obtain ⟨hslot, hkept⟩ := (holdsSlot_notFoundLoop vNotFound _).mp hslot
    rcases mem_append.mp hinv with hopen | hinv
    · obtain ⟨hopen, hnamed⟩ := mem_filter.mp hopen
      exact hkept (hmeets inv hopen (of_decide_eq_true hnamed) hslot).2
    · exact hs inv hinv hslot
  · rename_i hlong
    intro inv hinv hslot
    rcases mem_append.mp hinv with hopen | hinv
    · obtain ⟨hopen, hnamed⟩ := mem_filter.mp hopen
      exact hlong (hmeets inv hopen (of_decide_eq_true hnamed) hslot).1
    · exact hs inv hinv hslot

theorem Good.step (hs : s.Good) (hmeets : s.Meets event)
    (hstep : PeerState.step P event s = some s') : s'.Good := by
  unfold PeerState.step at hstep
  split at hstep
  · cases hstep
  · rename_i hconnected
    have hconnected : s.fDisconnect = false := Bool.eq_false_iff.mpr hconnected
    have hreleased := hs hconnected
    cases event with
    | inv view vInv =>
      obtain rfl := Option.some.inj hstep
      intro _
      unfold PeerState.processInv
      split
      · exact hreleased
      · exact hreleased.invLoop
    | sendMessages view => exact fun _ => hreleased.sendMessages hstep
    | tx view txid parents =>
      obtain rfl := Option.some.inj hstep
      exact hreleased.processTx txid parents
    | popPayload view kind id =>
      obtain rfl := Option.some.inj hstep
      exact hreleased.processPopPayload (hmeets hconnected)
    | getData txRelay found budget vRecvGetData =>
      obtain rfl := Option.some.inj hstep
      exact fun _ => hreleased.getData (hmeets hconnected)
    | notFound vInv =>
      obtain rfl := Option.some.inj hstep
      intro _
      unfold PeerState.processNotFound
      split
      · exact hreleased.withDownload fun _ hslot => ((holdsSlot_notFoundLoop vInv _).mp hslot).1
      · exact hreleased
    | otherPeers alreadyAskedFor =>
      obtain rfl := Option.some.inj hstep
      exact fun _ => hreleased

theorem step_bad (hviolates : ¬ s.Meets event) :
    ∃ s', PeerState.step P event s = some s' ∧ ¬ s'.Good := by
  cases event with
  | popPayload view kind id =>
    simp only [Meets, Classical.not_imp, not_not] at hviolates
    obtain ⟨hconnected, hinactive, hopen, hslot⟩ := hviolates
    refine ⟨_, by rw [PeerState.step, hconnected]; rfl, fun hgood => ?_⟩
    simp only [PeerState.processPopPayload, hinactive] at hgood
    refine hgood hconnected ⟨kind.getType, id⟩ ?_ hslot
    exact mem_append_left _ (mem_filter.mpr ⟨hopen, beq_self_eq_true _⟩)
  | getData txRelay found budget vRecvGetData =>
    simp only [Meets, Classical.not_imp, not_forall] at hviolates
    obtain ⟨hconnected, inv, hopen, hnamed, hslot, hkept⟩ := hviolates
    refine ⟨_, by rw [PeerState.step, hconnected]; rfl, fun hgood => ?_⟩
    have hanswered : inv ∈ (s.answer fun inv => decide
        (inv ∈ (processGetData txRelay found budget vRecvGetData).1)).answered :=
      mem_append_left _ (mem_filter.mpr ⟨hopen, decide_eq_true hnamed⟩)
    unfold PeerState.processNotFound at hgood
    split at hgood
    · rename_i hshort
      refine hgood hconnected inv hanswered ?_
      exact (holdsSlot_notFoundLoop _ _).mpr ⟨hslot, fun hfree => hkept ⟨hshort, hfree⟩⟩
    · exact hgood hconnected inv hanswered hslot
  | _ => exact absurd trivial hviolates

/-! ### The loop of `SendMessages` ends -/

def due (view : NodeView) (s : PeerState) : Nat :=
  s.download.processTime.countP fun entry => entry.1 ≤ view.currentTime

theorem lt_calculateTxGetDataTime {last currentTime rand : Int} {inbound : Bool}
    (htime : GETDATA_TX_INTERVAL ≤ currentTime) (hrand : 0 ≤ rand)
    (hlast : ¬ last ≤ currentTime - GETDATA_TX_INTERVAL) :
    currentTime < calculateTxGetDataTime last currentTime rand inbound := by
  have hnonzero : last ≠ 0 := by
    intro hzero
    omega
  unfold calculateTxGetDataTime INBOUND_PEER_TX_DELAY
  simp only [if_neg hnonzero]
  split <;> omega

theorem countP_emplaceTime {inv : CInv} (p : Int × CInv → Bool) :
    (d.emplaceTime time inv).processTime.countP p =
      d.processTime.countP p + if p (time, inv) then 1 else 0 := by
  have hsplit := congrArg (List.countP p)
    (takeWhile_append_dropWhile (p := (·.1 ≤ time)) (l := d.processTime))
  rw [countP_append] at hsplit
  simp only [TxDownloadState.emplaceTime, countP_append, countP_cons]
  omega

theorem processTime_emplaceInFlight :
    (d.emplaceInFlight hash time).processTime = d.processTime := by
  unfold TxDownloadState.emplaceInFlight
  split <;> rfl

/-- Every round takes one item that is due off the queue and puts none back. -/
theorem requestLoop_ends (htime : GETDATA_TX_INTERVAL ≤ view.currentTime) :
    ∀ {fuel : Nat} {rand : Nat → Int} {s : PeerState}, (∀ i, 0 ≤ rand i) →
      s.due view < fuel → ∃ s', s.requestLoop P view fuel rand = some s'
  | 0, _, _, _, hfuel => absurd hfuel (Nat.not_lt_zero _)
  | fuel + 1, rand, s, hrand, hfuel => by
    unfold PeerState.requestLoop
    split
    · exact ⟨s, rfl⟩
    · rename_i time inv rest hqueue
      split
      · exact ⟨s, rfl⟩
      · rename_i hdue
        have hcount : rest.countP (fun entry => entry.1 ≤ view.currentTime) < fuel := by
          rw [due, hqueue, countP_cons, if_pos (decide_eq_true (by omega))] at hfuel
          exact Nat.lt_of_succ_lt_succ hfuel
        simp only
        split
        · exact requestLoop_ends htime hrand hcount
        · split
          · refine requestLoop_ends htime hrand ?_
            simp only [due, request, processTime_emplaceInFlight]
            exact hcount
          · rename_i hrecent
            refine requestLoop_ends htime (fun i => hrand (i + 1)) ?_
            simp only [due, withDownload, countP_emplaceTime]
            rw [if_neg]
            · exact hcount
            · rw [decide_eq_true_eq, Int.not_le]
              exact lt_calculateTxGetDataTime htime (hrand 0) hrecent

end PeerState

/-! ### Whole runs -/

open GuardedRuns PeerState

/-- No slot of a new peer is held by an answered item, just when PoP payloads come while PoP is
    active and what is named in NOTFOUND with a slot is a transaction in flight. -/
theorem slots_released_iff (P : PeerConfig) (events : List PeerEvent) :
    Always (PeerState.step P) Good {} events ↔ AllMeet (PeerState.step P) Meets {} events := by
  have hkeep : ∀ s event s', s.Good → True → s.Meets event →
      PeerState.step P event s = some s' → s'.Good :=
    fun s event s' hs _ hmeets hstep => hs.step hmeets hstep
  have hbreak : ∀ (s : PeerState) (event : PeerEvent), s.Good → True → ¬ s.Meets event →
      ∃ s', PeerState.step P event s = some s' ∧ ¬ s'.Good :=
    fun s event _ _ hviolates => step_bad hviolates
  have hnew : ({} : PeerState).Good := fun _ inv hinv => absurd hinv not_mem_nil
  exact always_iff_meets (fun _ hs => hs) hkeep hbreak hnew fun _ _ => trivial

namespace Regtest

def emptyView (popActive : Bool) : NodeView where
  alreadyHave := fun _ => false
  popActive := popActive
  currentTime := 1600000000000000
  rand := fun _ => 0

def atvInv : CInv := ⟨MSG_POP_ATV, 7⟩

/-- The peer announces an ATV and does not have it when it is asked for it. -/
def atvNotFound : List PeerEvent :=
  [.inv (emptyView true) [atvInv], .sendMessages (emptyView true),
    .getData true (fun _ => false) 10 [atvInv]]

/-- The peer announces an ATV and sends it before PoP is active. -/
def atvTooEarly : List PeerEvent :=
  [.inv (emptyView false) [atvInv], .sendMessages (emptyView false),
    .popPayload (emptyView false) .atv 7]

/-- In both runs the answered item keeps its slots. -/
theorem atv_keeps_slot :
    ¬ Always (PeerState.step {}) Good {} atvNotFound ∧
      ¬ Always (PeerState.step {}) Good {} atvTooEarly := by
  have hslot : ∀ {s : PeerState},
      (s.fDisconnect, s.answered, s.download.announced) = (false, [atvInv], [7]) → ¬ s.Good := by
    rintro s h hgood
    obtain ⟨hconnected, h⟩ := Prod.mk.inj h
    obtain ⟨hanswered, hannounced⟩ := Prod.mk.inj h
    refine hgood hconnected atvInv (by rw [hanswered]; exact mem_cons_self) (.inl ?_)
    rw [hannounced]
    exact mem_cons_self
  constructor
  · intro h
    have hrun : (run (PeerState.step {}) atvNotFound {}).map
        (fun s => (s.fDisconnect, s.answered, s.download.announced)) =
        some (false, [atvInv], [7]) := by decide
    obtain ⟨s, hs, hvalue⟩ := Option.map_eq_some_iff.mp hrun
    exact hslot hvalue (h.run hs)
  · intro h
    have hrun : (run (PeerState.step {}) atvTooEarly {}).map
        (fun s => (s.fDisconnect, s.answered, s.download.announced)) =
        some (false, [atvInv], [7]) := by decide
    obtain ⟨s, hs, hvalue⟩ := Option.map_eq_some_iff.mp hrun
    exact hslot hvalue (h.run hs)

end Regtest

end VBitcoin
