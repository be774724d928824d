import Mathlib.Data.List.Chain
import LandscapeKit.LibSerial
import LandscapeKit.FlareCrypto

/-!
The session phase over whole streams: what one `SessionCrypto` seals, and what
the opposite one accepts of it when the link loses, pads, repeats or reorders.
-/

namespace LandscapeKit.Flare

open Bytes

/-- The arguments of one `seal` call. -/
structure Msg where
  msgType : UInt8
  sessionId : UInt32
  payload : Bytes
deriving DecidableEq

/-- The longest payload whose sealed length fits the 16-bit header field. -/
def maxPayload : ℕ := 65519

namespace SessionCrypto

def sealMsg (P : Primitives) (c : SessionCrypto) (m : Msg) : Sealed × SessionCrypto :=
  c.sealSession P m.msgType m.sessionId m.payload

def sealAll (P : Primitives) (c : SessionCrypto) : List Msg → List Sealed
  | [] => []
  | m :: ms => (c.sealMsg P m).1 :: sealAll P (c.sealMsg P m).2 ms

/-- `frame::decode` and then `open`, as both session loops do with a captured frame. -/
def receive (P : Primitives) (c : SessionCrypto) (raw : Bytes) :
    Option (Frame × Bytes) × SessionCrypto :=
  match decode raw with
  | .error _ => (none, c)
  | .ok f =>
    let (plain, c') := c.openSession P f.msgType f.sessionId f.seq f.len f.payload
    (plain.map (fun p => (f, p)), c')

def receiveAll (P : Primitives) (c : SessionCrypto) : List Bytes → List (Option (Frame × Bytes))
  | [] => []
  | raw :: raws => (c.receive P raw).1 :: receiveAll P (c.receive P raw).2 raws

@[simp]
theorem sealAll_length (P : Primitives) (c : SessionCrypto) (ms : List Msg) :
    (c.sealAll P ms).length = ms.length := by
  induction ms generalizing c with
  | nil => rfl
  | cons m ms ih => simp [sealAll, ih]

/-- The `i`-th frame of the stream. -/
def sealedFrame (P : Primitives) (c : SessionCrypto) (ms : List Msg) (i : Fin ms.length) : Sealed :=
  (c.sealAll P ms).get (i.cast (sealAll_length P c ms).symm)

/-- The indices of the accepted frames when the frames named by a list of indices
arrive in that order. -/
def acceptedIndices (P : Primitives) (sender : SessionCrypto) (ms : List Msg)
    (receiver : SessionCrypto) : List (Fin ms.length) → List (Fin ms.length)
  | [] => []
  | i :: is =>
    let (out, receiver') := receiver.receive P (sender.sealedFrame P ms i).raw
    if out.isSome then i :: acceptedIndices P sender ms receiver' is
    else acceptedIndices P sender ms receiver' is

def withTxSeq (c : SessionCrypto) (seq : UInt32) : SessionCrypto := { c with txSeq := seq }

theorem sealedFrame_eq (P : Primitives) (c : SessionCrypto) (ms : List Msg) (i : Fin ms.length) :
    c.sealedFrame P ms i =
      ((c.withTxSeq (c.txSeq + UInt32.ofNat i)).sealMsg P (ms.get i)).1 := by
  induction ms generalizing c with
  | nil => exact i.elim0
  | cons m ms ih =>
    refine Fin.cases ?_ (fun j => ?_) i
    · have h0 : c.withTxSeq (c.txSeq + UInt32.ofNat 0) = c := by
        rw [show UInt32.ofNat 0 = 0 from rfl, UInt32.add_zero]
        rfl
      change (c.sealMsg P m).1 = ((c.withTxSeq (c.txSeq + UInt32.ofNat 0)).sealMsg P m).1
      rw [h0]
    · have hj := ih (c.sealMsg P m).2 j
      have hseq : c.txSeq + 1 + UInt32.ofNat j = c.txSeq + UInt32.ofNat (j+1) := by
        rw [UInt32.ofNat_add, UInt32.add_assoc, UInt32.add_comm 1]
        rfl
      simp only [sealMsg, sealSession, withTxSeq, hseq] at hj
      exact hj

/-- The header a frame of this stream is decoded to. -/
def frameOf (P : Primitives) (c : SessionCrypto) (m : Msg) : Frame where
  version := version
  msgType := m.msgType
  sessionId := m.sessionId
  seq := c.txSeq
  len := UInt16.ofNat (m.payload.length + tagLen)
  payload := ((c.sealMsg P m).1.op.run P).take (UInt16.ofNat (m.payload.length + tagLen)).toNat

theorem decode_sealMsg (P : Primitives) (c : SessionCrypto) (m : Msg) (pad : Bytes) :
    decode ((c.sealMsg P m).1.raw ++ pad) = .ok (c.frameOf P m) := by
  have hrun : ((c.sealMsg P m).1.op.run P).length = m.payload.length + tagLen :=
    SealOp.run_length P _
  have hcut : (UInt16.ofNat (m.payload.length + tagLen)).toNat ≤ m.payload.length + tagLen := by
    rw [UInt16.toNat_ofNat']
    exact Nat.mod_le _ _
  have hd := decode_encodeHeader_append m.msgType m.sessionId c.txSeq
    (UInt16.ofNat (m.payload.length + tagLen)) ((c.sealMsg P m).1.op.run P ++ pad)
    (by rw [List.length_append, hrun]; omega)
  rw [List.take_append_of_le_length (by omega), ← List.append_assoc] at hd
  exact hd

end SessionCrypto

theorem ReplayWindow.accept_eq (w : ReplayWindow) (seq : UInt32) :
    (∃ last ∈ w.last, ¬ Serial.Newer last.toBitVec seq.toBitVec) ∧ w.accept seq = (false, w) ∨
    (∀ last ∈ w.last, Serial.Newer last.toBitVec seq.toBitVec) ∧
      w.accept seq = (true, ⟨some seq⟩) := by
  rcases hl : w.last with _ | last
  · right
    simp [accept, hl]
  · have hle : (seq - last).toInt32 ≤ 0 ↔ ¬ Serial.Newer last.toBitVec seq.toBitVec := by
      rw [Serial.Newer, not_lt, Int32.le_iff_toInt_le]
      rfl
    by_cases hn : Serial.Newer last.toBitVec seq.toBitVec
    · right
      have hpos : ¬ (seq - last).toInt32 ≤ 0 := fun hc => hle.mp hc hn
      simp only [accept, hl, hpos, if_false, Option.mem_some_iff, forall_eq', hn, and_self]
    · left
      simp only [accept, hl, hle.mpr hn, if_true, Option.mem_some_iff, exists_eq_left', hn,
        not_false_eq_true, and_self]

namespace SessionCrypto

/-- Two ends of one session: same keys, opposite directions. -/
structure Opposite (sender receiver : SessionCrypto) : Prop where
  keys : receiver.keys = sender.keys
  dir : receiver.txDir = sender.txDir.rx

theorem receive_sealMsg_cases (P : Primitives) (c r : SessionCrypto) (m : Msg) :
    ((r.receive P (c.sealMsg P m).1.raw).1 = none ∧
      (r.receive P (c.sealMsg P m).1.raw).2 = r) ∨
    ((r.receive P (c.sealMsg P m).1.raw).1.isSome ∧
      (∀ last ∈ r.rx.last, Serial.Newer last.toBitVec c.txSeq.toBitVec) ∧
      (r.receive P (c.sealMsg P m).1.raw).2 = { r with rx := ⟨some c.txSeq⟩ }) := by
  have hd := decode_sealMsg P c m []
  rw [List.append_nil] at hd
  rw [receive, hd]
  simp only [openSession, frameOf]
  split
  next => left; exact ⟨rfl, rfl⟩
  next plain _ =>
    rcases ReplayWindow.accept_eq r.rx c.txSeq with ⟨-, ha⟩ | ⟨hn, ha⟩
    · left
      simp [ha]
    · right
      simp only [ha]
      exact ⟨rfl, hn, trivial⟩

theorem receive_sealMsg_newer (P : Primitives) (hP : P.DecryptsEncrypted) (c r : SessionCrypto)
    (hcr : Opposite c r) (m : Msg) (hm : m.payload.length ≤ maxPayload) (pad : Bytes)
    (hn : ∀ last ∈ r.rx.last, Serial.Newer last.toBitVec c.txSeq.toBitVec) :
    r.receive P ((c.sealMsg P m).1.raw ++ pad) =
      (some (c.frameOf P m, m.payload), { r with rx := ⟨some c.txSeq⟩ }) := by
  have hrun : ((c.sealMsg P m).1.op.run P).length = m.payload.length + tagLen :=
    SealOp.run_length P _
  have hfit : (UInt16.ofNat (m.payload.length + tagLen)).toNat = m.payload.length + tagLen := by
    apply UInt16.toNat_ofNat_of_lt'
    simp only [maxPayload] at hm
    simp only [tagLen, UInt16.size]
    omega
  have hbody : (c.frameOf P m).payload = (c.sealMsg P m).1.op.run P := by
    simp only [frameOf, hfit]
    exact List.take_of_length_le hrun.le
  have hopen : r.keys.openWith P r.txDir.rx c.txSeq
      (encodeHeader m.msgType m.sessionId c.txSeq (UInt16.ofNat (m.payload.length + tagLen)))
      ((c.sealMsg P m).1.op.run P) = some m.payload := by
    rw [hcr.keys, hcr.dir, Dir.rx_rx]
    exact hP _ _ _ _
  have hacc : r.rx.accept c.txSeq = (true, ⟨some c.txSeq⟩) := by
    rcases ReplayWindow.accept_eq r.rx c.txSeq with ⟨⟨last, hl, hnot⟩, -⟩ | ⟨-, ha⟩
    · exact absurd (hn last hl) hnot
    · exact ha
  rw [receive, decode_sealMsg]
  simp only [openSession, hbody]
  simp only [frameOf] at *
  simp only [hopen, hacc, Option.map_some, if_true]

theorem newer_ofNat (m n : ℕ) (hmn : m < n) (hgap : n-m < 2^31) :
    Serial.Newer (UInt32.ofNat m).toBitVec (UInt32.ofNat n).toBitVec :=
  Serial.newer_of_lt 32 m n hmn (by omega)

theorem not_newer_ofNat (m n : ℕ) (hnm : n ≤ m) (hgap : m-n ≤ 2^31) :
    ¬ Serial.Newer (UInt32.ofNat m).toBitVec (UInt32.ofNat n).toBitVec :=
  Serial.not_newer_of_le 32 m n hnm (by omega)

theorem newer_ofNat_wrapped (m n : ℕ) (hnm : n < m) (hlt : m-n < 2^32) (hgap : 2^31 < m-n) :
    Serial.Newer (UInt32.ofNat m).toBitVec (UInt32.ofNat n).toBitVec := by
  have hwrap : (UInt32.ofNat n).toBitVec = (UInt32.ofNat (n + 2^32)).toBitVec := by
    apply BitVec.eq_of_toNat_eq
    simp
  rw [hwrap]
  exact newer_ofNat m (n + 2^32) (by omega) (by omega)

/-- The accepted frames come once each and in the order of sealing. -/
def InOrderOnce {n : ℕ} (accepted : List (Fin n)) : Prop :=
  accepted.Nodup ∧ accepted.Pairwise (· ≤ ·)

/-- A stream is safe when no order of delivery can make the fresh opposite end
accept a frame twice or out of order. -/
def ReplaySafe (P : Primitives) (keys : SessionKeys) (dir : Dir) (ms : List Msg) : Prop :=
  ∀ deliveries : List (Fin ms.length),
    InOrderOnce ((new keys dir).acceptedIndices P ms (new keys dir.rx) deliveries)

theorem sealedFrame_new (P : Primitives) (keys : SessionKeys) (dir : Dir) (ms : List Msg)
    (i : Fin ms.length) : (new keys dir).sealedFrame P ms i =
      (((new keys dir).withTxSeq (UInt32.ofNat i)).sealMsg P (ms.get i)).1 := by
  have hs : (new keys dir).txSeq + UInt32.ofNat i = UInt32.ofNat i := UInt32.zero_add _
  rw [sealedFrame_eq, hs]

theorem acceptedIndices_sorted (P : Primitives) (keys : SessionKeys) (dir : Dir) (ms : List Msg)
    (hlen : ms.length ≤ 2^31+1) (is : List (Fin ms.length)) (r : SessionCrypto) (k : Option ℕ)
    (hk : r.rx.last = k.map UInt32.ofNat) (hk31 : ∀ a ∈ k, a ≤ 2^31) :
    ((new keys dir).acceptedIndices P ms r is).Pairwise (· < ·) ∧
      ∀ a ∈ k, ∀ i ∈ (new keys dir).acceptedIndices P ms r is, a < i.val := by
  induction is generalizing r k with
  | nil => simp [acceptedIndices]
  | cons i is ih =>
    rw [acceptedIndices, sealedFrame_new]
    have hi31 : i.val ≤ 2^31 := by omega
    rcases receive_sealMsg_cases P ((new keys dir).withTxSeq (UInt32.ofNat i)) r (ms.get i) with
      ⟨hnone, hr⟩ | ⟨hsome, hnewer, hr⟩
    · simp only [hnone, Option.isSome_none, Bool.false_eq_true, if_false, hr]
      exact ih r k hk hk31
    · obtain ⟨hsorted, hafter⟩ := ih { r with rx := ⟨some (UInt32.ofNat i)⟩ } (some i.val) rfl
        (by simpa using hi31)
      have hlt : ∀ a ∈ k, a < i.val := by
        intro a ha
        by_contra hge
        refine not_newer_ofNat a i (by omega) ?_ (hnewer (UInt32.ofNat a) ?_)
        · have := hk31 a ha
          omega
        · rw [hk]
          exact Option.mem_map_of_mem _ ha
      simp only [hsome, if_true, hr]
      refine ⟨List.pairwise_cons.mpr ⟨hafter i.val rfl, hsorted⟩, ?_⟩
      intro a ha j hj
      rcases List.mem_cons.mp hj with rfl | hj
      · exact hlt a ha
      · exact (hlt a ha).trans (hafter i.val rfl j hj)

theorem acceptedIndices_of_chain (P : Primitives) (hP : P.DecryptsEncrypted) (keys : SessionKeys)
    (dir : Dir) (ms : List Msg) (hfit : ∀ m ∈ ms, m.payload.length ≤ maxPayload)
    (is : List (Fin ms.length)) (r : SessionCrypto) (hr : Opposite (new keys dir) r)
    (hfirst : ∀ last ∈ r.rx.last, ∀ i ∈ is.head?,
      Serial.Newer last.toBitVec (UInt32.ofNat i.val).toBitVec)
    (hchain : is.IsChain (fun i j =>
      Serial.Newer (UInt32.ofNat i.val).toBitVec (UInt32.ofNat j.val).toBitVec)) :
    (new keys dir).acceptedIndices P ms r is = is := by
  induction is generalizing r with
  | nil => rfl
  | cons i is ih =>
    have hrec := receive_sealMsg_newer P hP ((new keys dir).withTxSeq (UInt32.ofNat i)) r
      ⟨hr.keys, hr.dir⟩ (ms.get i) (hfit _ (List.get_mem ms i)) []
      (fun last hl => hfirst last hl i rfl)
    rw [List.append_nil] at hrec
    rw [acceptedIndices, sealedFrame_new, hrec]
    simp only [Option.isSome_some, if_true]
    congr 1
    rw [List.isChain_cons] at hchain
    refine ih _ ⟨hr.keys, hr.dir⟩ ?_ hchain.2
    intro last hl j hj
    obtain rfl : UInt32.ofNat i.val = last := by simpa [withTxSeq] using hl
    exact hchain.1 j hj

/-- Delivering frames 0, 2, 2^31+1 and then 0 again walks the window around. -/
def wrapDeliveries (n : ℕ) (hn : 2^31+1 < n) : List (Fin n) :=
  [⟨0, by omega⟩, ⟨2, by omega⟩, ⟨2^31+1, hn⟩, ⟨0, by omega⟩]

theorem acceptedIndices_wrapDeliveries (P : Primitives) (hP : P.DecryptsEncrypted)
    (keys : SessionKeys) (dir : Dir) (ms : List Msg)
    (hfit : ∀ m ∈ ms, m.payload.length ≤ maxPayload) (hlong : 2^31+1 < ms.length) :
    (new keys dir).acceptedIndices P ms (new keys dir.rx) (wrapDeliveries ms.length hlong) =
      wrapDeliveries ms.length hlong := by
  refine acceptedIndices_of_chain P hP keys dir ms hfit _ (new keys dir.rx) ⟨rfl, rfl⟩ ?_ ?_
  · intro last hl
    simp [new, ReplayWindow.new] at hl
  · rw [wrapDeliveries, List.isChain_cons_cons, List.isChain_cons_cons, List.isChain_cons_cons]
    refine ⟨?_, ?_, ?_, List.isChain_singleton _⟩
    · exact newer_ofNat 0 2 (by norm_num) (by norm_num)
    · exact newer_ofNat 2 (2^31+1) (by norm_num) (by norm_num)
    · exact newer_ofNat_wrapped (2^31+1) 0 (by norm_num) (by norm_num) (by norm_num)

/-- A stream of at most 2^31+1 frames is safe whatever the AEAD does, and a longer
stream of frames that fit their length field never is. -/
theorem replaySafe_iff_length (P : Primitives) (hP : P.DecryptsEncrypted) (keys : SessionKeys)
    (dir : Dir) (ms : List Msg) :
    (ms.length ≤ 2^31+1 → ReplaySafe P keys dir ms) ∧
    ((∀ m ∈ ms, m.payload.length ≤ maxPayload) →
      (ReplaySafe P keys dir ms ↔ ms.length ≤ 2^31+1)) := by
  have hsafe : ms.length ≤ 2^31+1 → ReplaySafe P keys dir ms := by
    intro hlen is
    have hsorted := (acceptedIndices_sorted P keys dir ms hlen is (new keys dir.rx) none rfl
      (by simp)).1
    exact ⟨hsorted.imp Fin.ne_of_lt, hsorted.imp Fin.le_of_lt⟩
  refine ⟨hsafe, fun hfit => ⟨fun hgood => ?_, hsafe⟩⟩
  by_contra hlong
  have hbad := hgood (wrapDeliveries ms.length (by omega))
  rw [acceptedIndices_wrapDeliveries P hP keys dir ms hfit (by omega)] at hbad
  have hdup := hbad.1
  simp [wrapDeliveries] at hdup

def sampleMsg : Msg := ⟨typeData, 1, [1, 2, 3]⟩

theorem replaySafe_sample :
    (tablePrimitives []).DecryptsEncrypted ∧
      ReplaySafe (tablePrimitives []) sampleKeys .c2s [sampleMsg, sampleMsg] :=
  ⟨tablePrimitives_decryptsEncrypted [],
    (replaySafe_iff_length _ (tablePrimitives_decryptsEncrypted []) sampleKeys .c2s
      [sampleMsg, sampleMsg]).1 (by norm_num)⟩

theorem replicate_sampleMsg_fits (n : ℕ) :
    ∀ m ∈ List.replicate n sampleMsg, m.payload.length ≤ maxPayload := by
  intro m hm
  rw [List.eq_of_mem_replicate hm]
  decide

/-- 2^31+2 frames of three bytes: frame 0 is accepted a second time. -/
theorem acceptedIndices_wrap_repeats :
    ¬ InOrderOnce ((new sampleKeys .c2s).acceptedIndices (tablePrimitives [])
      (List.replicate (2^31+2) sampleMsg) (new sampleKeys .s2c)
      (wrapDeliveries (List.replicate (2^31+2) sampleMsg).length
        (by rw [List.length_replicate]; omega))) := by
  have hlong : 2^31+1 < (List.replicate (2^31+2) sampleMsg).length := by
    rw [List.length_replicate]
    omega
  have hacc := acceptedIndices_wrapDeliveries (tablePrimitives [])
    (tablePrimitives_decryptsEncrypted []) sampleKeys .c2s (List.replicate (2^31+2) sampleMsg)
    (replicate_sampleMsg_fits _) hlong
  intro hgood
  rw [show (Dir.s2c : Dir) = Dir.c2s.rx from rfl, hacc] at hgood
  exact (List.nodup_cons.mp hgood.1).1 (by simp only [List.mem_cons, true_or, or_true])

/-- Session fidelity: of an in-order subsequence of the stream, with fewer than
2^31-1 frames lost in a row and any bytes of padding behind each frame, every frame
opens to what was sealed. -/
theorem receiveAll_delivered (P : Primitives) (hP : P.DecryptsEncrypted) (keys : SessionKeys)
    (dir : Dir) (ms : List Msg) (hfit : ∀ m ∈ ms, m.payload.length ≤ maxPayload)
    (ds : List (Fin ms.length × Bytes))
    (hds : ds.IsChain (fun d e => d.1 < e.1 ∧ e.1.val - d.1.val - 1 < 2^31 - 1)) :
    ((new keys dir.rx).receiveAll P
      (ds.map (fun d => ((new keys dir).sealedFrame P ms d.1).raw ++ d.2))).map
      (Option.map (fun out => (⟨out.1.msgType, out.1.sessionId, out.2⟩ : Msg))) =
    ds.map (fun d => some (ms.get d.1)) := by
  suffices hgen : ∀ r : SessionCrypto, Opposite (new keys dir) r →
      (∀ last ∈ r.rx.last, ∀ d ∈ ds.head?,
        Serial.Newer last.toBitVec (UInt32.ofNat d.1.val).toBitVec) →
      (r.receiveAll P (ds.map (fun d => ((new keys dir).sealedFrame P ms d.1).raw ++ d.2))).map
        (Option.map (fun out => (⟨out.1.msgType, out.1.sessionId, out.2⟩ : Msg))) =
      ds.map (fun d => some (ms.get d.1)) by
    refine hgen (new keys dir.rx) ⟨rfl, rfl⟩ ?_
    intro last hl
    simp [new, ReplayWindow.new] at hl
  induction ds with
  | nil => intro r _ _; rfl
  | cons d ds ih =>
    intro r hr hfirst
    rw [List.isChain_cons] at hds
    have hrec := receive_sealMsg_newer P hP ((new keys dir).withTxSeq (UInt32.ofNat d.1)) r
      ⟨hr.keys, hr.dir⟩ (ms.get d.1) (hfit _ (List.get_mem ms d.1)) d.2
      (fun last hl => hfirst last hl d rfl)
    have htail := ih hds.2 { r with rx := ⟨some (UInt32.ofNat d.1)⟩ } ⟨hr.keys, hr.dir⟩ (by
      intro last hl e he
      obtain rfl : UInt32.ofNat d.1.val = last := by simpa using hl
      obtain ⟨hlt, hgap⟩ := hds.1 e he
      exact newer_ofNat d.1 e.1 hlt (by omega))
    simp only [List.map_cons, receiveAll, sealedFrame_new, hrec] at htail ⊢
    exact congrArg₂ List.cons rfl htail

theorem receiveAll_delivered_sample :
    ((new sampleKeys .s2c).receiveAll (tablePrimitives [])
      [((new sampleKeys .c2s).sealedFrame (tablePrimitives []) [sampleMsg, ⟨typeTeardown, 1, []⟩]
        1).raw ++ [0, 0, 0]]).map
      (Option.map (fun out => (⟨out.1.msgType, out.1.sessionId, out.2⟩ : Msg))) =
    [some ⟨typeTeardown, 1, []⟩] :=
  receiveAll_delivered (tablePrimitives []) (tablePrimitives_decryptsEncrypted []) sampleKeys .c2s
    [sampleMsg, ⟨typeTeardown, 1, []⟩] (by decide) [(1, [0, 0, 0])] (List.isChain_singleton _)

end SessionCrypto

end LandscapeKit.Flare
