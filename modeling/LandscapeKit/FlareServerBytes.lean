import LandscapeKit.FlareRelayInv
import LandscapeKit.FlareServerMoves

/-!
Backpressure accounting of the server: the byte counter that gates the shared
channel is exact in every reachable state.
-/

namespace LandscapeKit.Flare

open Bytes

namespace Server

variable {S Sock : Type}

def queuedBytes (s : Server S) : ℕ := s.peers.sumBy Peer.bytes

def MsgFits (b : Bytes) : Prop := 0 < b.length ∧ b.length ≤ readBufferLen

structure PeerQueues (p : Peer S) : Prop where
  live : ∀ h q, p.pendingTx.lookup h = some q → h ∈ p.conns
  queues : ∀ h q, p.pendingTx.lookup h = some q → q ≠ [] ∧ [] ∉ q

theorem PeerQueues.of_empty {p : Peer S} (hp : p.pendingTx = ∅) : PeerQueues p := by
  refine ⟨?_, ?_⟩
  · intro h q hl
    rw [hp] at hl
    exact absurd hl (by simp)
  · intro h q hl
    rw [hp] at hl
    exact absurd hl (by simp)

structure Backpressure (s : Server S) : Prop where
  bytes : s.pendingTxBytes = s.queuedBytes
  peers : ∀ mac p, s.peers.lookup mac = some p → PeerQueues p
  unsaturated : s.saturated = false
  bound : s.pendingTxBytes < maxPendingToStackBytes + readBufferLen
  queued : ∀ q ∈ s.toRx, ∀ b, q.msg = .data b → MsgFits b
  sending : ∀ id t b, s.tasks id = some t → t.phase = .sending b → MsgFits b

namespace Backpressure

theorem init (now : Instant) : Backpressure (Server.init now : Server S) := by
  have hpos : 0 < maxPendingToStackBytes + readBufferLen := by decide
  refine ⟨rfl, ?_, rfl, hpos, ?_, ?_⟩
  · intro mac p hp
    exact absurd hp (by simp [Server.init])
  · intro q hq
    exact absurd hq (by simp [Server.init])
  · intro id t b ht
    exact absurd ht (by simp [Server.init])

theorem of_eq {s s' : Server S} (hs : Backpressure s) (hp : s'.peers = s.peers)
    (hr : s'.relay = s.relay) : Backpressure s' := by
  simp only [relay, RelayPart.mk.injEq] at hr
  obtain ⟨hb, hsat, hq, ht, -, -⟩ := hr
  refine ⟨?_, ?_, hsat.trans hs.unsaturated, hb ▸ hs.bound, ?_, ?_⟩
  · rw [hb, queuedBytes, hp]
    exact hs.bytes
  · rw [hp]
    exact hs.peers
  · rw [hq]
    exact hs.queued
  · rw [ht]
    exact hs.sending

theorem of_insert {s s' : Server S} (hs : Backpressure s) (mac : Mac) (p' : Peer S) (old : ℕ)
    (hold : old = ((s.peers.lookup mac).map Peer.bytes).getD 0)
    (hp : s'.peers = s.peers.insert mac p') (hp' : PeerQueues p')
    (hb : s'.pendingTxBytes + old = s.pendingTxBytes + Peer.bytes p')
    (hsat : s'.saturated = false) (hbound : s'.pendingTxBytes < maxPendingToStackBytes + readBufferLen)
    (hq : ∀ q ∈ s'.toRx, q ∈ s.toRx)
    (ht : ∀ id t b, s'.tasks id = some t → t.phase = .sending b → s.tasks id = some t) :
    Backpressure s' := by
  refine ⟨?_, ?_, hsat, hbound, fun q hq' => hs.queued q (hq q hq'),
    fun id t b h1 h2 => hs.sending id t b (ht id t b h1 h2) h2⟩
  · have hbytes := hs.bytes
    rw [queuedBytes] at hbytes ⊢
    rw [hp]
    rcases hl : s.peers.lookup mac with _ | p
    · rw [hl] at hold
      rw [Assoc.sumBy_insert_none Peer.bytes mac p' s.peers hl]
      simp only [Option.map_none, Option.getD_none] at hold
      omega
    · rw [hl] at hold
      have hins := Assoc.sumBy_insert_some Peer.bytes mac p p' s.peers hl
      simp only [Option.map_some, Option.getD_some] at hold
      omega
  · intro m p hl
    rw [hp, Assoc.lookup_insert_eq] at hl
    split at hl
    · obtain rfl := Option.some.inj hl
      exact hp'
    · exact hs.peers m p hl

theorem of_same {s s' : Server S} (hs : Backpressure s) (mac : Mac) (p p' : Peer S)
    (hl : s.peers.lookup mac = some p) (hp : s'.peers = s.peers.insert mac p')
    (hp' : p'.relay = p.relay) (hr : s'.relay = s.relay) : Backpressure s' := by
  have hpq := hs.peers mac p hl
  simp only [Peer.relay, PeerRelay.mk.injEq] at hp'
  obtain ⟨hc, hpt, -, -⟩ := hp'
  simp only [relay, RelayPart.mk.injEq] at hr
  obtain ⟨hb, hsat, hq, ht, -, -⟩ := hr
  refine hs.of_insert mac p' p.bytes (by rw [hl]; rfl) hp ⟨?_, ?_⟩ ?_
    (hsat.trans hs.unsaturated) (hb ▸ hs.bound) (fun q h => hq ▸ h) (fun id t b h _ => ht ▸ h)
  · rw [hpt, hc]
    exact hpq.live
  · rw [hpt]
    exact hpq.queues
  · rw [hb, Peer.bytes, Peer.bytes, hpt]

theorem removePeer {s : Server S} (hs : Backpressure s) (mac : Mac) :
    Backpressure (s.removePeer mac) := by
  rcases hl : s.peers.lookup mac with _ | p
  · simpa only [Server.removePeer, hl] using hs
  · have herase := Assoc.sumBy_erase_add Peer.bytes mac p s.peers hl
    have hbytes := hs.bytes
    have hbound := hs.bound
    rw [queuedBytes] at hbytes
    simp only [Server.removePeer, hl]
    refine ⟨?_, ?_, ?_, ?_, hs.queued, hs.sending⟩
    · simp only [Server.subBytes, queuedBytes]
      rw [← Peer.bytes]
      omega
    · intro m p' hl'
      simp only [Server.subBytes, Assoc.lookup_erase_eq] at hl'
      split at hl'
      · exact absurd hl' (by simp)
      · exact hs.peers m p' hl'
    · simp only [Server.subBytes, hs.unsaturated, Bool.false_or, decide_eq_false_iff_not]
      rw [← Peer.bytes]
      omega
    · simp only [Server.subBytes]
      omega

theorem move (s s' : Server S) (hs : Backpressure s) (h : Move s s') : Backpressure s' := by
  cases h with
  | book hp hr => exact hs.of_eq hp hr
  | touch mac p p' hl hp hp' hr => exact hs.of_same mac p p' hl hp hp' hr
  | create mac p' hl hp hp' hr =>
    simp only [Peer.relay, PeerRelay.mk.injEq] at hp'
    obtain ⟨hc, hpt, -, -⟩ := hp'
    simp only [relay, RelayPart.mk.injEq] at hr
    obtain ⟨hb, hsat, hq, ht, -, -⟩ := hr
    refine hs.of_insert mac p' 0 (by rw [hl]; rfl) hp (.of_empty hpt) ?_
      (hsat.trans hs.unsaturated) (hb ▸ hs.bound) (fun q h => hq ▸ h) (fun id t b h _ => ht ▸ h)
    rw [hb, Peer.bytes, hpt]
    rfl
  | renew mac p p' listeners hl hp hlen hp' hr =>
    simp only [Peer.relay, PeerRelay.mk.injEq] at hp'
    obtain ⟨hc, hpt, -, -⟩ := hp'
    simp only [relay, RelayPart.mk.injEq, subBytes] at hr
    obtain ⟨hb, hsat, hq, ht, -, -⟩ := hr
    have hbytes := hs.bytes
    have hbound := hs.bound
    have hone := Assoc.le_sumBy Peer.bytes mac p s.peers hl
    rw [queuedBytes] at hbytes
    have hzero : p'.bytes = 0 := by rw [Peer.bytes, hpt]; rfl
    refine hs.of_insert mac p' p.bytes (by rw [hl]; rfl) hp (.of_empty hpt) ?_ ?_ ?_
      (fun q h => hq ▸ h) (fun id t b h _ => ht ▸ h)
    · omega
    · rw [hsat, hs.unsaturated, Bool.false_or, decide_eq_false_iff_not]
      omega
    · omega
  | remove mac hs' => exact hs' ▸ hs.removePeer mac

end Backpressure

section Pump

variable (P : Primitives) (ops : StackOps S Sock) (env : ServerEnv)

theorem acceptOne_accounted {base : ℕ} {a : Accepting S} (ha : a.flow.Accounted base)
    (listener : SocketHandle) :
    (acceptOne ops a listener).flow.Accounted base ∧
      (acceptOne ops a listener).flow.pendingTx = a.flow.pendingTx := by
  unfold acceptOne
  split
  · exact ⟨ha.of_eq rfl rfl rfl (fun _ h => h), rfl⟩
  · exact ⟨ha.of_eq rfl rfl rfl (Flow.mem_insert_of_mem _ _ _), rfl⟩

theorem foldl_acceptOne_accounted {base : ℕ} (listeners : List SocketHandle) (a : Accepting S)
    (ha : a.flow.Accounted base) :
    (listeners.foldl (acceptOne ops) a).flow.Accounted base ∧
      (listeners.foldl (acceptOne ops) a).flow.pendingTx = a.flow.pendingTx := by
  induction listeners generalizing a with
  | nil => exact ⟨ha, rfl⟩
  | cons l ls ih =>
    obtain ⟨h1, h2⟩ := acceptOne_accounted ops ha l
    obtain ⟨h3, h4⟩ := ih (acceptOne ops a l) h1
    exact ⟨h3, h4.trans h2⟩

theorem pumpFlow_accounted (hops : ops.SendsAtMostOffered) {base : ℕ} (link : LinkEnv)
    (peer : Peer S) (nextConn : ConnId) (flow : Flow S Unit) (hf : flow.Accounted base) :
    (pumpFlow P ops env link peer nextConn flow).flow.Accounted base ∧
      (pumpFlow P ops env link peer nextConn flow).flow.pendingTx.sumBy queueBytes ≤
        flow.pendingTx.sumBy queueBytes := by
  have hpoll := Flow.pollAndSend_accounted P ops link hf
  have hq1 := Assoc.sumBy_le_of_lookup queueBytes _ _ (Flow.pollAndSend_keeps P ops link flow).queues
  simp only [pumpFlow]
  split
  · exact ⟨hpoll, hq1⟩
  · obtain ⟨hacc, hsame⟩ := foldl_acceptOne_accounted ops peer.listeners
      ⟨flow.pollAndSend P ops link, [], peer.nextGeneration, nextConn, []⟩ hpoll
    have hrelay := Flow.relayAll_accounted ops hops env.order hacc
    refine ⟨Flow.pollAndSend_accounted P ops link hrelay, ?_⟩
    have hkeep := (Flow.relayAll_keeps ops env.order (peer.listeners.foldl (acceptOne ops)
      ⟨flow.pollAndSend P ops link, [], peer.nextGeneration, nextConn, []⟩).flow).trans
      (Flow.pollAndSend_keeps P ops link _)
    have hq2 := Assoc.sumBy_le_of_lookup queueBytes _ _ hkeep.queues
    rw [hsame] at hq2
    exact hq2.trans hq1

theorem spawnTasks_sending (tasks : ConnId → Option ConnTask) (mac : Mac)
    (spawned : List (ConnId × SocketHandle × UInt64)) (id : ConnId) (t : ConnTask) (b : Bytes)
    (h : spawnTasks tasks mac spawned id = some t) (hph : t.phase = .sending b) :
    tasks id = some t := by
  induction spawned generalizing tasks with
  | nil => exact h
  | cons x xs ih =>
    have hx := ih _ h
    beta_reduce at hx
    by_cases hid : id = x.1
    · subst hid
      rw [Function.update_self] at hx
      obtain rfl := Option.some.inj hx
      exact absurd hph (by simp)
    · rwa [Function.update_of_ne hid] at hx

theorem pumpPeer_backpressure (hops : ops.SendsAtMostOffered) {s : Server S}
    (hs : Backpressure s) (mac : Mac) (sid : UInt32) :
    Backpressure (s.pumpPeer P ops env mac sid) := by
  rcases hl : s.peers.lookup mac with _ | peer
  · simpa only [pumpPeer, hl] using hs
  rcases hst : peer.stack with _ | stack
  · simpa only [pumpPeer, hl, hst] using hs
  rcases hcr : peer.crypto with _ | crypto
  · simpa only [pumpPeer, hl, hst, hcr] using hs
  have hpq := hs.peers mac peer hl
  have hbytes := hs.bytes
  have hbound := hs.bound
  have hone := Assoc.le_sumBy Peer.bytes mac peer s.peers hl
  rw [queuedBytes] at hbytes
  have hstart : (startFlow s peer stack crypto).Accounted (s.pendingTxBytes - Peer.bytes peer) := by
    refine ⟨?_, hpq.live, hpq.queues, hs.unsaturated⟩
    change s.pendingTxBytes = _ + Peer.bytes peer
    omega
  obtain ⟨hacc, hle⟩ := pumpFlow_accounted P ops env hops (linkOf env mac peer sid) peer s.nextConn
    (startFlow s peer stack crypto) hstart
  have hb := hacc.bytes
  have hle' : _ ≤ Peer.bytes peer := hle
  simp only [pumpPeer, hl, hst, hcr]
  refine hs.of_insert mac _ (Peer.bytes peer) (by rw [hl]; rfl) rfl ⟨hacc.live, hacc.queues⟩ ?_
    hacc.unsaturated ?_ (fun q hq => hq) ?_
  · simp only [finishPump, Peer.bytes] at hb ⊢
    simp only [Peer.bytes] at hone
    omega
  · simp only [finishPump]
    omega
  · intro id t b h1 h2
    exact spawnTasks_sending s.tasks mac _ id t b h1 h2

theorem pumpSession_backpressure (hops : ops.SendsAtMostOffered) {s : Server S}
    (hs : Backpressure s) (mac : Mac) : Backpressure (s.pumpSession P ops env mac) :=
  pumpSession_induction P ops env hs mac fun sid => pumpPeer_backpressure P ops env hops hs mac sid

theorem pumpEach_backpressure (hops : ops.SendsAtMostOffered) (macs : List Mac) {s : Server S}
    (hs : Backpressure s) : Backpressure (s.pumpEach P ops env macs) :=
  pumpEach_induction P ops env hs macs fun _ mac hs sid =>
    pumpPeer_backpressure P ops env hops hs mac sid

end Pump

section Loop

variable (P : Primitives) (ops : StackOps S Sock) (cfg : ServerConfig) (master : MasterKey)
  (env : ServerEnv)

theorem sumBy_push (m : Assoc SocketHandle (List Bytes)) (h : SocketHandle) (b : Bytes) :
    Assoc.sumBy queueBytes (m.insert h ((m.lookup h).getD [] ++ [b])) =
      Assoc.sumBy queueBytes m + b.length := by
  have happ : ∀ q : List Bytes, queueBytes (q ++ [b]) = queueBytes q + b.length := by
    intro q
    simp [queueBytes]
  rcases hl : m.lookup h with _ | q
  · rw [Assoc.sumBy_insert_none queueBytes h _ m hl, Option.getD_none, happ]
    simp [queueBytes]
  · have hins := Assoc.sumBy_insert_some queueBytes h q (q ++ [b]) m hl
    rw [happ] at hins
    rw [Option.getD_some]
    omega

theorem pushed_queue {m : Assoc SocketHandle (List Bytes)}
    (hm : ∀ h q, m.lookup h = some q → q ≠ [] ∧ [] ∉ q) (h : SocketHandle) (b : Bytes)
    (hb : 0 < b.length) :
    (m.lookup h).getD [] ++ [b] ≠ [] ∧ [] ∉ (m.lookup h).getD [] ++ [b] := by
  refine ⟨by simp, ?_⟩
  intro hnil
  rcases List.mem_append.mp hnil with hold | hnew
  · rcases ho : m.lookup h with _ | old
    · rw [ho] at hold
      exact absurd hold (by simp)
    · rw [ho] at hold
      exact (hm h old ho).2 hold
  · rw [List.mem_singleton] at hnew
    rw [← hnew] at hb
    exact absurd hb (by simp)

theorem applyMsg_backpressure {s : Server S} (hs : Backpressure s) (mac : Mac) (h : SocketHandle)
    (peer : Peer S) (conn : ServerConn) (q : Queued) (hl : s.peers.lookup mac = some peer)
    (hc : peer.conns.lookup h = some conn) (hq : ∀ b, q.msg = .data b → MsgFits b)
    (hgate : s.pendingTxBytes < maxPendingToStackBytes) :
    Backpressure (s.applyMsg ops mac h peer conn q) := by
  have hpq := hs.peers mac peer hl
  have hlog : Backpressure { s with applied := s.applied ++ [(q.origin, conn.chan)] } :=
    ⟨hs.bytes, hs.peers, hs.unsaturated, hs.bound, hs.queued, hs.sending⟩
  have hmem : h ∈ peer.conns := AList.lookup_isSome.mp (by rw [hc]; rfl)
  simp only [applyMsg]
  split
  next b hb =>
    obtain ⟨hpos, hfit⟩ := hq b hb
    have hsum := sumBy_push peer.pendingTx h b
    refine hs.of_insert mac _ (Peer.bytes peer) (by rw [hl]; rfl) rfl ⟨?_, ?_⟩ ?_ hs.unsaturated ?_
      (fun q hq => hq) (fun id t b h _ => h)
    · intro k q' hk
      rw [Assoc.lookup_insert_eq] at hk
      split at hk
      next hkh => exact hkh ▸ hmem
      next => exact hpq.live k q' hk
    · intro k q' hk
      rw [Assoc.lookup_insert_eq] at hk
      split at hk
      next =>
        obtain rfl := Option.some.inj hk
        exact pushed_queue hpq.queues h b hpos
      next => exact hpq.queues k q' hk
    · simp only [setPeer, Peer.bytes, hsum]
      omega
    · simp only [setPeer]
      omega
  next =>
    split
    · exact hlog
    split
    · refine hs.of_insert mac _ (Peer.bytes peer) (by rw [hl]; rfl) rfl ⟨?_, hpq.queues⟩ rfl
        hs.unsaturated hs.bound (fun q hq => hq) (fun id t b h _ => h)
      intro k q' hk
      exact Flow.mem_insert_of_mem _ h _ k (hpq.live k q' hk)
    · exact hlog.of_same mac peer _ hl rfl rfl rfl

theorem onToRx_backpressure (hops : ops.SendsAtMostOffered) {s : Server S} (hs : Backpressure s) :
    Backpressure (s.onToRx P ops env) := by
  rcases hq : s.toRx with _ | ⟨q, rest⟩
  · simpa only [onToRx, hq] using hs
  have hfits : ∀ b, q.msg = .data b → MsgFits b := hs.queued q (by rw [hq]; simp)
  have hrest : Backpressure { s with toRx := rest } := by
    refine ⟨hs.bytes, hs.peers, hs.unsaturated, hs.bound, ?_, hs.sending⟩
    intro q' hq'
    exact hs.queued q' (by rw [hq]; exact List.mem_cons_of_mem q hq')
  simp only [onToRx, hq]
  split
  next hgate =>
    split
    · exact hrest
    next peer hl =>
    split
    · exact hrest
    next conn hc =>
    split
    · apply pumpSession_backpressure P ops env hops
      exact applyMsg_backpressure ops hrest q.key.1 q.key.2.1 peer conn q hl hc hfits hgate
    · exact hrest
  · exact hs

theorem pushToRx_backpressure {s : Server S} (hs : Backpressure s) (q : Queued)
    (hq : ∀ b, q.msg = .data b → MsgFits b) : Backpressure (s.pushToRx q) := by
  refine ⟨hs.bytes, hs.peers, hs.unsaturated, hs.bound, ?_, hs.sending⟩
  intro q' hq'
  rcases List.mem_append.mp hq' with hold | hnew
  · exact hs.queued q' hold
  · rw [List.mem_singleton] at hnew
    exact hnew ▸ hq

theorem setTask_backpressure {s : Server S} (hs : Backpressure s) (id : ConnId) (t : ConnTask)
    (ht : ∀ b, t.phase = .sending b → MsgFits b) : Backpressure (s.setTask id t) := by
  refine ⟨hs.bytes, hs.peers, hs.unsaturated, hs.bound, hs.queued, ?_⟩
  intro id' t' b hl hph
  change Function.update s.tasks id (some t) id' = some t' at hl
  by_cases hid : id' = id
  · subst hid
    rw [Function.update_self] at hl
    obtain rfl := Option.some.inj hl
    exact ht b hph
  · rw [Function.update_of_ne hid] at hl
    exact hs.sending id' t' b hl hph

theorem notify_backpressure {s : Server S} (hs : Backpressure s) (key : ServerConnKey) :
    Backpressure (s.notify key) := by
  unfold notify
  split
  · exact hs
  · exact hs.of_eq rfl rfl

theorem dropReceiver_backpressure {s : Server S} (hs : Backpressure s) (id : ConnId)
    (key : ServerConnKey) : Backpressure (s.dropReceiver id key) := by
  apply notify_backpressure
  exact hs.of_eq rfl rfl

theorem recvFrom_backpressure {s : Server S} (hs : Backpressure s) (id : ConnId)
    (key : ServerConnKey) : Backpressure (s.recvFrom id key).2 := by
  unfold recvFrom
  split
  · apply notify_backpressure
    exact hs.of_eq rfl rfl
  · split
    · exact hs
    · exact hs

theorem headerPhase_ne_sending (got b : Bytes) : headerPhase cfg got ≠ .sending b := by
  unfold headerPhase
  split
  · simp
  · simp only
    split
    · simp
    · simp

theorem taskStep_backpressure {s : Server S} (hs : Backpressure s) (id : ConnId) (t : ConnTask)
    (hl : s.tasks id = some t) (act : TaskAct) : Backpressure (s.taskStep cfg id t act) := by
  have hrecv := recvFrom_backpressure hs id t.key
  have hclose : ∀ w, Backpressure (s.setTask id { t with phase := .closing, writer := w }) :=
    fun w => setTask_backpressure hs id _ (by simp)
  have hrelay : ∀ w, t.phase = .relaying → Backpressure (s.setTask id { t with writer := w }) :=
    fun w hph => setTask_backpressure hs id _ (by simp [hph])
  unfold taskStep
  split
  · dsimp only
    split
    · exact hs
    · exact setTask_backpressure hrecv id _
        (fun b hb => absurd hb (headerPhase_ne_sending cfg _ b))
    · exact setTask_backpressure hrecv id _ (by simp)
  · split
    · exact setTask_backpressure hs id _ (by simp)
    · exact hclose _
  · exact hclose _
  · split
    next hfit =>
      apply setTask_backpressure hs id
      intro b' hb'
      obtain rfl := TaskPhase.sending.inj hb'
      exact hfit
    · exact hs
  next hph =>
    split
    · dsimp only
      split
      · exact hs
      · exact setTask_backpressure hrecv id _ (by simp [hph])
      · exact setTask_backpressure hrecv id _ (by simp [hph])
    · exact hs
  next hph =>
    split
    · split
      · exact hrelay _ hph
      · exact dropReceiver_backpressure (hclose _) id t.key
    · split
      · exact dropReceiver_backpressure (hrelay _ hph) id t.key
      · exact dropReceiver_backpressure (hclose _) id t.key
    · exact hs
  next b hph =>
    split
    · apply pushToRx_backpressure (setTask_backpressure hs id _ (by simp))
      intro b' hb'
      obtain rfl := StackMsg.data.inj hb'
      exact hs.sending id t b hl hph
    · exact hs
  · split
    · have hdone : Backpressure ((s.setTask id { t with phase := .done, writer := .finished }).pushToRx
          ⟨t.key, .close, id⟩) :=
        pushToRx_backpressure (setTask_backpressure hs id _ (by simp)) _ (by simp)
      dsimp only
      split
      · exact hdone
      · exact dropReceiver_backpressure hdone id t.key
    · exact hs
  · exact hs

theorem step_backpressure (hops : ops.SendsAtMostOffered) {s : Server S} (hs : Backpressure s)
    (e : Event) : Backpressure (s.step P ops cfg master env e) := by
  cases e with
  | frame mac ifindex raw =>
    simp only [step]
    split
    · rcases onFrame_moves P ops cfg master env s mac ifindex raw with hmoves | ⟨s₁, sid, ht, heq⟩
      · exact hmoves.preserves Backpressure.move hs
      · rw [heq]
        exact pumpPeer_backpressure P ops env hops (Backpressure.move s s₁ hs ht.move) mac sid
    · exact hs
  | recvFailed => exact hs.of_eq rfl rfl
  | toRx =>
    simp only [step]
    split
    · exact onToRx_backpressure P ops env hops hs
    · exact hs
  | wake =>
    simp only [step]
    split
    · exact pumpEach_backpressure P ops env hops _ (hs.of_eq rfl rfl)
    · exact hs
  | poll =>
    simp only [step]
    split
    · exact pumpEach_backpressure P ops env hops _ hs
    · exact hs
  | sweep =>
    simp only [step]
    split
    · exact (onSweep_moves P env s).preserves Backpressure.move hs
    · exact hs
  | shutdown =>
    simp only [step]
    split
    · exact (onShutdown_moves P env s).preserves Backpressure.move hs
    · exact hs
  | task id act =>
    simp only [step]
    split
    · exact hs
    next t hl => exact taskStep_backpressure cfg hs id t hl act

theorem run_backpressure (hops : ops.SendsAtMostOffered) (events : List (ServerEnv × Event))
    {s : Server S} (hs : Backpressure s) : Backpressure (s.run P ops cfg master events) := by
  unfold run
  induction events generalizing s with
  | nil => exact hs
  | cons e es ih => exact ih (step_backpressure P ops cfg master e.1 hops hs e.2)

end Loop

end Server

end LandscapeKit.Flare
