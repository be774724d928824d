import LandscapeKit.FlareRelay

/-!
What a pump can do, stage by stage: which connections, queues and sequence
numbers it may change, and that the byte counter stays exact.
-/

namespace LandscapeKit.Flare

open Bytes

/-- `ops` are the AEAD calls that took the transmit side from `c` to `c'`: one
after the other under one key, with the running sequence number. -/
structure SealedRun (c c' : SessionCrypto) (ops : List SealOp) : Prop where
  keys : c'.keys = c.keys
  dir : c'.txDir = c.txDir
  seq : c'.txSeq = c.txSeq + UInt32.ofNat ops.length
  calls : ops.map (fun o => (o.key, o.nonce)) =
    (List.range ops.length).map (fun i =>
      (c.keys.key c.txDir, c.keys.nonce (c.txSeq + UInt32.ofNat i)))

namespace SealedRun

theorem refl (c : SessionCrypto) : SealedRun c c [] := by
  refine ⟨rfl, rfl, ?_, rfl⟩
  rw [List.length_nil, show UInt32.ofNat 0 = 0 from rfl, UInt32.add_zero]

theorem trans {c₁ c₂ c₃ : SessionCrypto} {o₁ o₂ : List SealOp} (h₁ : SealedRun c₁ c₂ o₁)
    (h₂ : SealedRun c₂ c₃ o₂) : SealedRun c₁ c₃ (o₁ ++ o₂) := by
  refine ⟨h₂.keys.trans h₁.keys, h₂.dir.trans h₁.dir, ?_, ?_⟩
  · rw [h₂.seq, h₁.seq, List.length_append, UInt32.ofNat_add, UInt32.add_assoc]
  · rw [List.map_append, h₁.calls, h₂.calls, List.length_append, List.range_add, List.map_append,
      List.map_map, h₁.keys, h₁.dir, h₁.seq]
    congr 1
    apply List.map_congr_left
    intro i _
    simp only [Function.comp_apply, UInt32.ofNat_add, UInt32.add_assoc]

theorem single (P : Primitives) (c : SessionCrypto) (t : UInt8) (sid : UInt32) (payload : Bytes) :
    SealedRun c (c.sealSession P t sid payload).2 [(c.sealSession P t sid payload).1.op] := by
  refine ⟨rfl, rfl, rfl, ?_⟩
  simp [SessionCrypto.sealSession, SessionCrypto.sealOp, SessionKeys.sealOp]

theorem opened (P : Primitives) (c : SessionCrypto) (t : UInt8) (sid seq : UInt32) (len : UInt16)
    (sealed : Bytes) : SealedRun c (c.openSession P t sid seq len sealed).2 [] := by
  have hsame : (c.openSession P t sid seq len sealed).2.keys = c.keys ∧
      (c.openSession P t sid seq len sealed).2.txDir = c.txDir ∧
      (c.openSession P t sid seq len sealed).2.txSeq = c.txSeq := by
    simp only [SessionCrypto.openSession]
    split
    · exact ⟨rfl, rfl, rfl⟩
    · exact ⟨rfl, rfl, rfl⟩
  refine ⟨hsame.1, hsame.2.1, ?_, rfl⟩
  rw [hsame.2.2, List.length_nil, show UInt32.ofNat 0 = 0 from rfl, UInt32.add_zero]

end SealedRun

namespace Flow

variable {S Sock X : Type} (P : Primitives) (ops : StackOps S Sock) (link : LinkEnv)

/-- The effect every part of a pump stays within: connections are dropped or get
other flags but keep their identity, queues only shrink, and the link sees sealed
frames of the running session only. -/
structure Keeps (st st' : Flow S X) : Prop where
  conns : ∀ h c', st'.conns.lookup h = some c' → ∃ c, st.conns.lookup h = some c ∧
    c'.chan = c.chan ∧ c'.generation = c.generation ∧ c'.extra = c.extra
  queues : ∀ h q', st'.pendingTx.lookup h = some q' →
    ∃ q, st.pendingTx.lookup h = some q ∧ queueBytes q' ≤ queueBytes q
  sealed : ∃ frames ops, st'.wire = st.wire ++ frames ∧ frames.map OutFrame.op = ops.map some ∧
    SealedRun st.crypto st'.crypto ops

theorem Keeps.of_eq {st st' : Flow S X} (hc : st'.conns = st.conns)
    (hq : st'.pendingTx = st.pendingTx) (hw : st'.wire = st.wire) (hk : st'.crypto = st.crypto) :
    Keeps st st' := by
  refine ⟨?_, ?_, ⟨[], [], by rw [hw, List.append_nil], rfl, ?_⟩⟩
  · intro h c' hl
    exact ⟨c', by rw [← hc, hl], rfl, rfl, rfl⟩
  · intro h q' hl
    exact ⟨q', by rw [← hq, hl], le_rfl⟩
  · rw [hk]
    exact SealedRun.refl _

theorem Keeps.refl (st : Flow S X) : Keeps st st := Keeps.of_eq rfl rfl rfl rfl

theorem Keeps.trans {s₁ s₂ s₃ : Flow S X} (h₁ : Keeps s₁ s₂) (h₂ : Keeps s₂ s₃) :
    Keeps s₁ s₃ := by
  refine ⟨?_, ?_, ?_⟩
  · intro h c hc
    obtain ⟨c₂, hc₂, hch₂, hg₂, he₂⟩ := h₂.conns h c hc
    obtain ⟨c₁, hc₁, hch₁, hg₁, he₁⟩ := h₁.conns h c₂ hc₂
    exact ⟨c₁, hc₁, hch₂.trans hch₁, hg₂.trans hg₁, he₂.trans he₁⟩
  · intro h q hq
    obtain ⟨q₂, hq₂, hle₂⟩ := h₂.queues h q hq
    obtain ⟨q₁, hq₁, hle₁⟩ := h₁.queues h q₂ hq₂
    exact ⟨q₁, hq₁, hle₂.trans hle₁⟩
  · obtain ⟨f₁, o₁, hw₁, ho₁, hr₁⟩ := h₁.sealed
    obtain ⟨f₂, o₂, hw₂, ho₂, hr₂⟩ := h₂.sealed
    refine ⟨f₁ ++ f₂, o₁ ++ o₂, ?_, ?_, hr₁.trans hr₂⟩
    · rw [hw₂, hw₁, List.append_assoc]
    · rw [List.map_append, List.map_append, ho₁, ho₂]

theorem pollAndSend_induction {I : Flow S X → Prop} {st : Flow S X} (hst : I st)
    (hpoll : I { st with stack := (ops.poll link.now st.stack).1 })
    (hsend : ∀ s pkt, I s → I (s.sendData P link pkt)) : I (st.pollAndSend P ops link) := by
  unfold pollAndSend
  split
  · exact hst
  · refine List.foldlRecOn _ _ hpoll fun s hs pkt _ => ?_
    split
    · exact hs
    · exact hsend s pkt hs

theorem relayAll_induction {I : Flow S X → Prop} (order : List SocketHandle → List SocketHandle)
    {st : Flow S X} (hst : I st) (hserve : ∀ acc h, I acc.1 → I (serveHandle ops acc h).1)
    (hreap : ∀ s h, I s → I (reapHandle ops s h)) : I (st.relayAll ops order) := by
  unfold relayAll
  split
  · exact hst
  · refine List.foldlRecOn _ _ ?_ fun s hs h _ => hreap s h hs
    have hserved := List.foldlRecOn (motive := fun acc => I acc.1) (order st.conns.keys)
      (serveHandle ops) (b := (st, [])) hst fun acc hacc h _ => hserve acc h hacc
    exact hserved

theorem sendData_keeps (st : Flow S X) (pkt : Bytes) : Keeps st (st.sendData P link pkt) := by
  refine ⟨fun h c' hl => ⟨c', hl, rfl, rfl, rfl⟩, fun h q' hl => ⟨q', hl, le_rfl⟩, ?_⟩
  exact ⟨_, [(st.crypto.sealSession P typeData link.sid pkt).1.op], rfl, rfl,
    SealedRun.single P st.crypto typeData link.sid pkt⟩

theorem pollAndSend_keeps (st : Flow S X) : Keeps st (st.pollAndSend P ops link) := by
  apply pollAndSend_induction P ops link (I := Keeps st) (Keeps.refl st)
  · exact Keeps.of_eq rfl rfl rfl rfl
  · exact fun s pkt hs => hs.trans (sendData_keeps P link s pkt)

theorem flushLoop_frame (h : SocketHandle) (fuel : ℕ) (st : Flow S X) (q : List Bytes) :
    ∃ s p b, (flushLoop ops h fuel st q).1 =
      { st with stack := s, pendingTxBytes := p, saturated := b } := by
  induction fuel generalizing st q with
  | zero => exact ⟨st.stack, st.pendingTxBytes, st.saturated, rfl⟩
  | succ fuel ih =>
    match q with
    | [] => exact ⟨st.stack, st.pendingTxBytes, st.saturated, rfl⟩
    | front :: rest =>
      rw [flushLoop]
      split
      · exact ⟨_, _, _, rfl⟩
      · obtain ⟨s, p, b, hs⟩ := ih _ _
        exact ⟨s, p, b, hs⟩

theorem queueBytes_cons (b : Bytes) (q : List Bytes) :
    queueBytes (b :: q) = b.length + queueBytes q := by
  simp [queueBytes]

theorem queueBytes_advance (n : ℕ) (front : Bytes) (rest : List Bytes) :
    queueBytes (if front.drop n = [] then rest else front.drop n :: rest) =
      (front.length - n) + queueBytes rest := by
  split
  next he =>
    have hl := congrArg List.length he
    rw [List.length_drop, List.length_nil] at hl
    omega
  next => rw [queueBytes_cons, List.length_drop]

theorem flushLoop_queueBytes_le (h : SocketHandle) (fuel : ℕ) (st : Flow S X) (q : List Bytes) :
    queueBytes (flushLoop ops h fuel st q).2 ≤ queueBytes q := by
  induction fuel generalizing st q with
  | zero => exact le_rfl
  | succ fuel ih =>
    match q with
    | [] => exact le_rfl
    | front :: rest =>
      rw [flushLoop]
      split
      · exact le_rfl
      · have hle := ih (({ st with stack := (ops.sendSlice st.stack h front).1 } :
            Flow S X).subBytes (ops.sendSlice st.stack h front).2)
          (if front.drop (ops.sendSlice st.stack h front).2 = [] then rest
            else front.drop (ops.sendSlice st.stack h front).2 :: rest)
        rw [queueBytes_advance] at hle
        rw [queueBytes_cons]
        exact hle.trans (by omega)

theorem flushQueue_keeps (st : Flow S X) (h : SocketHandle) : Keeps st (st.flushQueue ops h) := by
  rcases hq : st.pendingTx.lookup h with _ | q
  · simp only [flushQueue, hq]
    exact Keeps.refl st
  · obtain ⟨s, p, b, hf⟩ := flushLoop_frame ops h (flushFuel q) st q
    have hle := flushLoop_queueBytes_le ops h (flushFuel q) st q
    simp only [flushQueue, hq]
    split
    · refine ⟨fun k c hl => ⟨c, by simpa only [hf] using hl, rfl, rfl, rfl⟩, ?_,
        ⟨[], [], by simp only [hf, List.append_nil], rfl, by simpa only [hf] using SealedRun.refl _⟩⟩
      intro k q' hl
      simp only [hf, Assoc.lookup_erase_eq] at hl
      split at hl
      · exact absurd hl (by simp)
      · exact ⟨q', hl, le_rfl⟩
    · refine ⟨fun k c hl => ⟨c, by simpa only [hf] using hl, rfl, rfl, rfl⟩, ?_,
        ⟨[], [], by simp only [hf, List.append_nil], rfl, by simpa only [hf] using SealedRun.refl _⟩⟩
      intro k q' hl
      simp only [hf, Assoc.lookup_insert_eq] at hl
      split at hl
      next hk =>
        obtain rfl := Option.some.inj hl
        exact ⟨q, by rw [hk, hq], hle⟩
      next => exact ⟨q', hl, le_rfl⟩

theorem Keeps.of_insert {st st' : Flow S X} (h : SocketHandle) (conn conn' : Conn X)
    (hl : st.conns.lookup h = some conn) (hch : conn'.chan = conn.chan)
    (hg : conn'.generation = conn.generation) (he : conn'.extra = conn.extra)
    (hc : st'.conns = st.conns.insert h conn') (hq : st'.pendingTx = st.pendingTx)
    (hw : st'.wire = st.wire) (hk : st'.crypto = st.crypto) : Keeps st st' := by
  refine ⟨?_, fun k q' hl' => ⟨q', by rw [← hq, hl'], le_rfl⟩,
    ⟨[], [], by rw [hw, List.append_nil], rfl, by rw [hk]; exact SealedRun.refl _⟩⟩
  intro k c' hl'
  rw [hc, Assoc.lookup_insert_eq] at hl'
  split at hl'
  next hkh =>
    obtain rfl := Option.some.inj hl'
    exact ⟨conn, by rw [hkh, hl], hch, hg, he⟩
  next => exact ⟨c', hl', rfl, rfl, rfl⟩

theorem closeFlushed_keeps (st : Flow S X) (h : SocketHandle) :
    Keeps st (st.closeFlushed ops h) := by
  rcases hl : st.conns.lookup h with _ | conn
  · simp only [closeFlushed, hl]
    exact Keeps.refl st
  · simp only [closeFlushed, hl]
    split
    · exact Keeps.of_insert h conn { conn with closeAfterFlush := false } hl rfl rfl rfl rfl rfl rfl rfl
    · exact Keeps.refl st

theorem recvLoop_frame (h : SocketHandle) (chan : ConnId) (slots : ℕ) (st : Flow S X) :
    ∃ s ch, recvLoop ops h chan slots st = { st with stack := s, chans := ch } := by
  induction slots generalizing st with
  | zero => exact ⟨st.stack, st.chans, rfl⟩
  | succ slots ih =>
    rw [recvLoop]
    split
    · exact ⟨_, _, rfl⟩
    · obtain ⟨s, ch, hs⟩ := ih _
      exact ⟨s, ch, hs⟩

theorem recvQueue_frame (st : Flow S X) (h : SocketHandle) :
    ∃ s ch, st.recvQueue ops h = { st with stack := s, chans := ch } := by
  rcases hl : st.conns.lookup h with _ | conn
  · exact ⟨st.stack, st.chans, by simp only [recvQueue, hl]⟩
  · simp only [recvQueue, hl]
    exact recvLoop_frame ops h conn.chan _ st

theorem recvQueue_keeps (st : Flow S X) (h : SocketHandle) : Keeps st (st.recvQueue ops h) := by
  obtain ⟨s, ch, hs⟩ := recvQueue_frame ops st h
  rw [hs]
  exact Keeps.of_eq rfl rfl rfl rfl

theorem settle_keeps (st : Flow S X) (h : SocketHandle) : Keeps st (st.settle ops h).1 := by
  rcases hl : st.conns.lookup h with _ | conn
  · simp only [settle, hl]
    exact Keeps.refl st
  · simp only [settle, hl]
    split
    · exact Keeps.refl st
    split
    · split
      · exact Keeps.of_eq rfl rfl rfl rfl
      split
      · exact Keeps.refl st
      · exact Keeps.of_insert h conn { conn with peerEofSent := true } hl rfl rfl rfl rfl rfl rfl rfl
    · exact Keeps.refl st

theorem serveHandle_keeps (acc : Flow S X × List SocketHandle) (h : SocketHandle) :
    Keeps acc.1 (serveHandle ops acc h).1 :=
  (flushQueue_keeps ops acc.1 h).trans <| (closeFlushed_keeps ops _ h).trans <|
    (recvQueue_keeps ops _ h).trans (settle_keeps ops _ h)

theorem reapHandle_keeps (st : Flow S X) (h : SocketHandle) : Keeps st (reapHandle ops st h) := by
  have hconns : ∀ (k : SocketHandle) (c' : Conn X), (st.conns.erase h).lookup k = some c' →
      ∃ c, st.conns.lookup k = some c ∧ c'.chan = c.chan ∧ c'.generation = c.generation ∧
        c'.extra = c.extra := by
    intro k c' hl
    rw [Assoc.lookup_erase_eq] at hl
    split at hl
    · exact absurd hl (by simp)
    · exact ⟨c', hl, rfl, rfl, rfl⟩
  rcases hq : st.pendingTx.lookup h with _ | q
  · simp only [reapHandle, hq]
    exact ⟨hconns, fun k q' hl => ⟨q', hl, le_rfl⟩,
      ⟨[], [], (List.append_nil _).symm, rfl, SealedRun.refl _⟩⟩
  · simp only [reapHandle, hq]
    refine ⟨hconns, ?_, ⟨[], [], (List.append_nil _).symm, rfl, SealedRun.refl _⟩⟩
    intro k q' hl
    simp only [subBytes, Assoc.lookup_erase_eq] at hl
    split at hl
    · exact absurd hl (by simp)
    · exact ⟨q', hl, le_rfl⟩

theorem relayAll_keeps (order : List SocketHandle → List SocketHandle) (st : Flow S X) :
    Keeps st (st.relayAll ops order) :=
  relayAll_induction ops (I := Keeps st) order (Keeps.refl st)
    (fun acc h hacc => hacc.trans (serveHandle_keeps ops acc h))
    fun s h hs => hs.trans (reapHandle_keeps ops s h)

/-- The byte counter is exact: `base` bytes queued elsewhere plus the bytes of these
queues. Queues belong to connections, hold at least one chunk and no empty chunk, and
no subtraction has saturated. -/
structure Accounted (base : ℕ) (st : Flow S X) : Prop where
  bytes : st.pendingTxBytes = base + st.pendingTx.sumBy queueBytes
  live : ∀ h q, st.pendingTx.lookup h = some q → h ∈ st.conns
  queues : ∀ h q, st.pendingTx.lookup h = some q → q ≠ [] ∧ [] ∉ q
  unsaturated : st.saturated = false

theorem Accounted.of_eq {base : ℕ} {st st' : Flow S X} (hst : Accounted base st)
    (hb : st'.pendingTxBytes = st.pendingTxBytes) (hq : st'.pendingTx = st.pendingTx)
    (hs : st'.saturated = st.saturated) (hc : ∀ h, h ∈ st.conns → h ∈ st'.conns) :
    Accounted base st' := by
  refine ⟨?_, ?_, ?_, hs.trans hst.unsaturated⟩
  · rw [hb, hq]
    exact hst.bytes
  · intro h q hl
    exact hc h (hst.live h q (hq ▸ hl))
  · intro h q hl
    exact hst.queues h q (hq ▸ hl)

theorem pollAndSend_accounted {base : ℕ} {st : Flow S X} (hst : Accounted base st) :
    Accounted base (st.pollAndSend P ops link) := by
  apply pollAndSend_induction P ops link hst
  · exact hst.of_eq rfl rfl rfl (fun _ h => h)
  · exact fun s pkt hs => hs.of_eq rfl rfl rfl (fun _ h => h)

theorem nil_notMem_advance (n : ℕ) (front : Bytes) (rest : List Bytes) (hr : [] ∉ rest) :
    [] ∉ (if front.drop n = [] then rest else front.drop n :: rest) := by
  split
  next => exact hr
  next hne =>
    intro hmem
    rcases List.mem_cons.mp hmem with h | h
    · exact hne h.symm
    · exact hr h

theorem flushLoop_accounted (hops : ops.SendsAtMostOffered) (h : SocketHandle) (fuel : ℕ)
    (st : Flow S X) (q : List Bytes) (hq : [] ∉ q) (hle : queueBytes q ≤ st.pendingTxBytes)
    (hs : st.saturated = false) :
    (flushLoop ops h fuel st q).1.pendingTxBytes + queueBytes q =
        st.pendingTxBytes + queueBytes (flushLoop ops h fuel st q).2 ∧
      (flushLoop ops h fuel st q).1.saturated = false ∧ [] ∉ (flushLoop ops h fuel st q).2 := by
  induction fuel generalizing st q with
  | zero => exact ⟨rfl, hs, hq⟩
  | succ fuel ih =>
    match q, hq, hle with
    | [], hq, _ => exact ⟨rfl, hs, hq⟩
    | front :: rest, hq, hle =>
      rw [queueBytes_cons] at hle
      have hn := hops st.stack h front
      rw [flushLoop]
      split
      · exact ⟨rfl, hs, hq⟩
      · have hrest : [] ∉ rest := fun hm => hq (List.mem_cons_of_mem _ hm)
        obtain ⟨h1, h2, h3⟩ := ih
          (({ st with stack := (ops.sendSlice st.stack h front).1 } : Flow S X).subBytes
            (ops.sendSlice st.stack h front).2)
          (if front.drop (ops.sendSlice st.stack h front).2 = [] then rest
            else front.drop (ops.sendSlice st.stack h front).2 :: rest)
          (nil_notMem_advance _ front rest hrest)
          (by rw [queueBytes_advance]; simp only [subBytes]; omega)
          (by simp only [subBytes, hs, Bool.false_or, decide_eq_false_iff_not]; omega)
        refine ⟨?_, h2, h3⟩
        rw [queueBytes_advance] at h1
        rw [queueBytes_cons]
        simp only [subBytes] at h1
        simp only [subBytes]
        omega

theorem flushQueue_accounted (hops : ops.SendsAtMostOffered) {base : ℕ} {st : Flow S X}
    (hst : Accounted base st) (h : SocketHandle) : Accounted base (st.flushQueue ops h) := by
  rcases hq : st.pendingTx.lookup h with _ | q
  · simpa only [flushQueue, hq] using hst
  · obtain ⟨s, p, b, hf⟩ := flushLoop_frame ops h (flushFuel q) st q
    have hin := Assoc.le_sumBy queueBytes h q st.pendingTx hq
    have hbytes := hst.bytes
    obtain ⟨h1, h2, h3⟩ := flushLoop_accounted ops hops h (flushFuel q) st q
      (hst.queues h q hq).2 (by omega) hst.unsaturated
    have hpt : (flushLoop ops h (flushFuel q) st q).1.pendingTx = st.pendingTx := by rw [hf]
    have hco : (flushLoop ops h (flushFuel q) st q).1.conns = st.conns := by rw [hf]
    simp only [flushQueue, hq]
    split
    next hnil =>
      have he := Assoc.sumBy_erase_add queueBytes h q st.pendingTx hq
      rw [hnil] at h1
      have h0 : queueBytes [] = 0 := rfl
      refine ⟨?_, ?_, ?_, h2⟩
      · simp only [hpt]
        omega
      · intro k q' hl
        simp only [hpt, hco, Assoc.lookup_erase_eq] at hl ⊢
        split at hl
        · exact absurd hl (by simp)
        · exact hst.live k q' hl
      · intro k q' hl
        simp only [hpt, Assoc.lookup_erase_eq] at hl
        split at hl
        · exact absurd hl (by simp)
        · exact hst.queues k q' hl
    next hne =>
      have hi := Assoc.sumBy_insert_some queueBytes h q
        (flushLoop ops h (flushFuel q) st q).2 st.pendingTx hq
      refine ⟨?_, ?_, ?_, h2⟩
      · simp only [hpt]
        omega
      · intro k q' hl
        simp only [hpt, hco, Assoc.lookup_insert_eq] at hl ⊢
        split at hl
        next hk => exact hk ▸ hst.live h q hq
        next => exact hst.live k q' hl
      · intro k q' hl
        simp only [hpt, Assoc.lookup_insert_eq] at hl
        split at hl
        next =>
          obtain rfl := Option.some.inj hl
          exact ⟨hne, h3⟩
        next => exact hst.queues k q' hl

theorem mem_insert_of_mem {β : Type} (m : Assoc SocketHandle β) (h : SocketHandle) (b : β) :
    ∀ k, k ∈ m → k ∈ m.insert h b :=
  fun _ hk => (AList.mem_insert m).mpr (Or.inr hk)

theorem closeFlushed_accounted {base : ℕ} {st : Flow S X} (hst : Accounted base st)
    (h : SocketHandle) : Accounted base (st.closeFlushed ops h) := by
  simp only [closeFlushed]
  split
  · exact hst
  split
  · exact hst.of_eq rfl rfl rfl (mem_insert_of_mem _ h _)
  · exact hst

theorem recvQueue_accounted {base : ℕ} {st : Flow S X} (hst : Accounted base st)
    (h : SocketHandle) : Accounted base (st.recvQueue ops h) := by
  obtain ⟨s, ch, hs⟩ := recvQueue_frame ops st h
  rw [hs]
  exact hst.of_eq rfl rfl rfl (fun _ hk => hk)

theorem settle_accounted {base : ℕ} {st : Flow S X} (hst : Accounted base st)
    (h : SocketHandle) : Accounted base (st.settle ops h).1 := by
  simp only [settle]
  split
  · exact hst
  split
  · exact hst
  split
  · split
    · exact hst.of_eq rfl rfl rfl (fun _ hk => hk)
    split
    · exact hst
    · exact hst.of_eq rfl rfl rfl (mem_insert_of_mem _ h _)
  · exact hst

theorem serveHandle_accounted (hops : ops.SendsAtMostOffered) {base : ℕ}
    {acc : Flow S X × List SocketHandle} (hacc : Accounted base acc.1) (h : SocketHandle) :
    Accounted base (serveHandle ops acc h).1 :=
  settle_accounted ops (recvQueue_accounted ops (closeFlushed_accounted ops
    (flushQueue_accounted ops hops hacc h) h) h) h

theorem reapHandle_accounted {base : ℕ} {st : Flow S X} (hst : Accounted base st)
    (h : SocketHandle) : Accounted base (reapHandle ops st h) := by
  have hbytes := hst.bytes
  have hkeep : ∀ k q', (st.pendingTx.erase h).lookup k = some q' →
      k ≠ h ∧ st.pendingTx.lookup k = some q' := by
    intro k q' hl
    rw [Assoc.lookup_erase_eq] at hl
    split at hl
    · exact absurd hl (by simp)
    next hk => exact ⟨hk, hl⟩
  rcases hq : st.pendingTx.lookup h with _ | q
  · have hsame : st.pendingTx.erase h = st.pendingTx := Assoc.erase_of_lookup_none h _ hq
    rw [hsame] at hkeep
    simp only [reapHandle, hq]
    refine ⟨hbytes, ?_, hst.queues, hst.unsaturated⟩
    intro k q' hl
    exact AList.mem_erase.mpr ⟨(hkeep k q' hl).1, hst.live k q' hl⟩
  · have he := Assoc.sumBy_erase_add queueBytes h q st.pendingTx hq
    simp only [reapHandle, hq]
    refine ⟨?_, ?_, ?_, ?_⟩
    · simp only [subBytes]
      omega
    · intro k q' hl
      obtain ⟨hk, hl'⟩ := hkeep k q' hl
      exact AList.mem_erase.mpr ⟨hk, hst.live k q' hl'⟩
    · intro k q' hl
      exact hst.queues k q' (hkeep k q' hl).2
    · simp only [subBytes, hst.unsaturated, Bool.false_or, decide_eq_false_iff_not]
      omega

theorem relayAll_accounted (hops : ops.SendsAtMostOffered)
    (order : List SocketHandle → List SocketHandle) {base : ℕ} {st : Flow S X}
    (hst : Accounted base st) : Accounted base (st.relayAll ops order) :=
  relayAll_induction ops order hst (fun _ h hacc => serveHandle_accounted ops hops hacc h)
    fun _ h hs => reapHandle_accounted ops hs h

end Flow

end LandscapeKit.Flare
