import LandscapeKit.FlareServerBytes
import LandscapeKit.FlareClient

/-!
Backpressure accounting of the client, and the accounts of both sides together. The
client queues two bytes for every local connection without asking the gate; that these
stay within two bytes for each live connection rests on the stack never handing out a
handle that is still in use.
-/

namespace LandscapeKit.Flare

open Bytes

namespace StackOps

variable {S Sock : Type}

/-- `live` tells which handles of a stack are in use: a new connection gets one that is
not, and only `remove_socket` gives a handle back. -/
structure HandleLaw (ops : StackOps S Sock) (live : S → SocketHandle → Prop) : Prop where
  connect_unused : ∀ s a p q, ¬ live s (ops.connect s a p q).2
  connect_live : ∀ s a p q, live (ops.connect s a p q).1 (ops.connect s a p q).2
  connect_keeps : ∀ s a p q h, live s h → live (ops.connect s a p q).1 h
  remove_keeps : ∀ s h k, k ≠ h → live s k → live (ops.removeSocket s h).1 k
  push_keeps : ∀ s b h, live s h → live (ops.pushPacket s b) h
  poll_keeps : ∀ s t h, live s h → live (ops.poll t s).1 h
  delay_keeps : ∀ s t h, live s h → live (ops.pollDelay t s).1 h
  send_keeps : ∀ s k b h, live s h → live (ops.sendSlice s k b).1 h
  recv_keeps : ∀ s k n h, live s h → live (ops.recvSlice s k n).1 h
  close_keeps : ∀ s k h, live s h → live (ops.close s k) h

def HandlesFresh (ops : StackOps S Sock) : Prop := ∃ live, ops.HandleLaw live

end StackOps

theorem tableStackOps_handlesFresh : tableStackOps.HandlesFresh := by
  refine ⟨fun s h => h < s.sockets.length, ?_⟩
  have hopen : ∀ l : List TcpState, (openFirst l).length = l.length := by
    intro l
    induction l with
    | nil => rfl
    | cons st rest ih =>
      cases st <;> simp [openFirst, ih]
  refine ⟨?_, ?_, ?_, ?_, ?_, fun _ _ _ hh => hh, fun _ _ _ hh => hh, fun _ _ _ _ hh => hh,
    fun _ _ _ _ hh => hh, ?_⟩
  · intro s a p q
    exact lt_irrefl _
  · intro s a p q
    simp [tableStackOps]
  · intro s a p q h hh
    exact Nat.lt_of_lt_of_le hh (by simp [tableStackOps])
  · intro s h k _ hk
    simpa [tableStackOps] using hk
  · intro s b h hh
    simpa [tableStackOps, hopen] using hh
  · intro s k h hh
    simpa [tableStackOps] using hh

namespace Flow

variable {S Sock X : Type} {P : Primitives} {ops : StackOps S Sock} {live : S → SocketHandle → Prop}

def HandlesLive (live : S → SocketHandle → Prop) (st : Flow S X) : Prop :=
  ∀ h, h ∈ st.conns → live st.stack h

theorem HandlesLive.of_stack {st st' : Flow S X} (hst : HandlesLive live st)
    (hc : ∀ h, h ∈ st'.conns → h ∈ st.conns)
    (hs : ∀ h, live st.stack h → live st'.stack h) : HandlesLive live st' :=
  fun h hh => hs h (hst h (hc h hh))

theorem mem_of_mem_insert {β : Type} {m : Assoc SocketHandle β} {h : SocketHandle} {b : β}
    (hm : h ∈ m) : ∀ k, k ∈ m.insert h b → k ∈ m := by
  intro k hk
  rcases (AList.mem_insert m).mp hk with rfl | hk
  · exact hm
  · exact hk

theorem mem_of_lookup {β : Type} {m : Assoc SocketHandle β} {h : SocketHandle} {b : β}
    (hl : m.lookup h = some b) : h ∈ m :=
  AList.lookup_isSome.mp (by rw [hl]; rfl)

theorem pollAndSend_handles (law : ops.HandleLaw live) (link : LinkEnv) {st : Flow S X}
    (hst : HandlesLive live st) : HandlesLive live (st.pollAndSend P ops link) := by
  apply pollAndSend_induction P ops link hst
  · exact hst.of_stack (fun h hh => hh) (fun h hh => law.poll_keeps _ _ h hh)
  · exact fun s pkt hs => hs

theorem flushLoop_live (law : ops.HandleLaw live) (h k : SocketHandle) (fuel : ℕ) (st : Flow S X)
    (q : List Bytes) (hk : live st.stack k) : live (flushLoop ops h fuel st q).1.stack k := by
  induction fuel generalizing st q with
  | zero => exact hk
  | succ fuel ih =>
    match q with
    | [] => exact hk
    | front :: rest =>
      rw [flushLoop]
      have hsend := law.send_keeps st.stack h front k hk
      simp only
      split
      · exact hsend
      · exact ih _ _ hsend

theorem flushQueue_handles (law : ops.HandleLaw live) {st : Flow S X} (hst : HandlesLive live st)
    (h : SocketHandle) : HandlesLive live (st.flushQueue ops h) := by
  rcases hq : st.pendingTx.lookup h with _ | q
  · simpa only [flushQueue, hq] using hst
  · obtain ⟨s, p, b, hf⟩ := flushLoop_frame ops h (flushFuel q) st q
    have hlive : ∀ k, live st.stack k → live (flushLoop ops h (flushFuel q) st q).1.stack k :=
      fun k hk => flushLoop_live law h k (flushFuel q) st q hk
    have hconns : (flushLoop ops h (flushFuel q) st q).1.conns = st.conns := by rw [hf]
    simp only [flushQueue, hq]
    split
    · exact hst.of_stack (fun k hk => hconns ▸ hk) hlive
    · exact hst.of_stack (fun k hk => hconns ▸ hk) hlive

theorem closeFlushed_handles (law : ops.HandleLaw live) {st : Flow S X}
    (hst : HandlesLive live st) (h : SocketHandle) : HandlesLive live (st.closeFlushed ops h) := by
  simp only [closeFlushed]
  split
  · exact hst
  next conn hl =>
  split
  · exact hst.of_stack (mem_of_mem_insert (mem_of_lookup hl)) (law.close_keeps _ _)
  · exact hst

theorem recvLoop_live (law : ops.HandleLaw live) (h k : SocketHandle) (chan : ConnId) (slots : ℕ)
    (st : Flow S X) (hk : live st.stack k) : live (recvLoop ops h chan slots st).stack k := by
  induction slots generalizing st with
  | zero => exact hk
  | succ slots ih =>
    have hrecv := law.recv_keeps st.stack h 4096 k hk
    rw [recvLoop]
    split
    · exact hrecv
    · exact ih _ hrecv

theorem recvQueue_handles (law : ops.HandleLaw live) {st : Flow S X} (hst : HandlesLive live st)
    (h : SocketHandle) : HandlesLive live (st.recvQueue ops h) := by
  rcases hl : st.conns.lookup h with _ | conn
  · simpa only [recvQueue, hl] using hst
  · obtain ⟨s, ch, hs⟩ := recvLoop_frame ops h conn.chan (st.chans conn.chan).free st
    simp only [recvQueue, hl]
    refine hst.of_stack (fun k hk => ?_) (fun k hk => recvLoop_live law h k _ _ st hk)
    rw [hs] at hk
    exact hk

theorem settle_handles (law : ops.HandleLaw live) {st : Flow S X} (hst : HandlesLive live st)
    (h : SocketHandle) : HandlesLive live (st.settle ops h).1 := by
  simp only [settle]
  split
  · exact hst
  next conn hl =>
  split
  · exact hst
  split
  · split
    · exact hst.of_stack (fun k hk => hk) (law.close_keeps _ _)
    split
    · exact hst
    · exact hst.of_stack (mem_of_mem_insert (mem_of_lookup hl)) (fun k hk => hk)
  · exact hst

theorem serveHandle_handles (law : ops.HandleLaw live) {acc : Flow S X × List SocketHandle}
    (hacc : HandlesLive live acc.1) (h : SocketHandle) :
    HandlesLive live (serveHandle ops acc h).1 :=
  settle_handles law (recvQueue_handles law (closeFlushed_handles law
    (flushQueue_handles law hacc h) h) h) h

theorem reapHandle_handles (law : ops.HandleLaw live) {st : Flow S X} (hst : HandlesLive live st)
    (h : SocketHandle) : HandlesLive live (reapHandle ops st h) := by
  have hkeep : ∀ k, k ∈ st.conns.erase h → live (ops.removeSocket st.stack h).1 k := by
    intro k hk
    obtain ⟨hne, hmem⟩ := (AList.mem_erase).mp hk
    exact law.remove_keeps st.stack h k hne (hst k hmem)
  simp only [reapHandle]
  split
  · exact hkeep
  · exact hkeep

theorem relayAll_handles (law : ops.HandleLaw live) (order : List SocketHandle → List SocketHandle)
    {st : Flow S X} (hst : HandlesLive live st) : HandlesLive live (st.relayAll ops order) :=
  relayAll_induction ops order hst (fun _ h hacc => serveHandle_handles law hacc h)
    fun _ h hs => reapHandle_handles law hs h

end Flow

namespace Client

variable {S Sock : Type} (P : Primitives) (ops : StackOps S Sock) (args : SessionArgs)
  (env : ClientEnv)

def BridgeFits (b : Bytes) : Prop := 0 < b.length ∧ b.length ≤ bridgeBufferLen

structure Backpressure (c : Client S) : Prop where
  accounts : c.flow.Accounted 0
  queued : ∀ q ∈ c.toRx, ∀ b, q.msg = .data b → BridgeFits b
  sending : ∀ id t b, c.tasks id = some t → t.phase = .sending b → BridgeFits b

def gatedBytes (c : Client S) : ℕ := c.flow.pendingTx.sumBy (fun q => queueBytes q - 2)

structure Gated (live : S → SocketHandle → Prop) (c : Client S) : Prop where
  handles : c.flow.HandlesLive live
  bound : c.gatedBytes < maxPendingToStackBytes + bridgeBufferLen

namespace Backpressure

theorem of_flow {c c' : Client S} (hc : Backpressure c) (hf : c'.flow.Accounted 0)
    (hq : c'.toRx = c.toRx) (ht : c'.tasks = c.tasks) : Backpressure c' :=
  ⟨hf, hq ▸ hc.queued, ht ▸ hc.sending⟩

theorem of_same {c c' : Client S} (hc : Backpressure c)
    (hb : c'.flow.pendingTxBytes = c.flow.pendingTxBytes)
    (hp : c'.flow.pendingTx = c.flow.pendingTx) (hs : c'.flow.saturated = c.flow.saturated)
    (hm : ∀ h, h ∈ c.flow.conns → h ∈ c'.flow.conns) (hq : c'.toRx = c.toRx)
    (ht : c'.tasks = c.tasks) : Backpressure c' :=
  hc.of_flow (hc.accounts.of_eq hb hp hs hm) hq ht

end Backpressure

namespace Gated

variable {live : S → SocketHandle → Prop}

theorem of_same {c c' : Client S} (hc : Gated live c)
    (hp : c'.flow.pendingTx = c.flow.pendingTx)
    (hm : ∀ h, h ∈ c'.flow.conns → h ∈ c.flow.conns)
    (hs : ∀ h, live c.flow.stack h → live c'.flow.stack h) : Gated live c' := by
  refine ⟨hc.handles.of_stack hm hs, ?_⟩
  rw [gatedBytes, hp]
  exact hc.bound

end Gated

theorem accounted_push {st st' : Flow S ClientExtra} (hst : st.Accounted 0) (h : SocketHandle)
    (b : Bytes) (hb : 0 < b.length)
    (hp : st'.pendingTx = st.pendingTx.insert h ((st.pendingTx.lookup h).getD [] ++ [b]))
    (hn : st'.pendingTxBytes = st.pendingTxBytes + b.length)
    (hs : st'.saturated = st.saturated) (hh : h ∈ st'.conns)
    (hm : ∀ k, k ∈ st.conns → k ∈ st'.conns) : st'.Accounted 0 := by
  have hbytes := hst.bytes
  have hsum := Server.sumBy_push st.pendingTx h b
  refine ⟨?_, ?_, ?_, hs.trans hst.unsaturated⟩
  · rw [hn, hp, hsum]
    omega
  · intro k q hk
    rw [hp, Assoc.lookup_insert_eq] at hk
    split at hk
    next hkh => exact hkh ▸ hh
    next => exact hm k (hst.live k q hk)
  · intro k q hk
    rw [hp, Assoc.lookup_insert_eq] at hk
    split at hk
    next =>
      obtain rfl := Option.some.inj hk
      exact Server.pushed_queue hst.queues h b hb
    next => exact hst.queues k q hk

section Accounts

theorem init_backpressure (now : Instant) (seed : UInt64) :
    Backpressure (Client.init ops args now seed) := by
  refine ⟨⟨rfl, ?_, ?_, rfl⟩, ?_, ?_⟩
  · intro h q hl
    exact absurd hl (by simp [init])
  · intro h q hl
    exact absurd hl (by simp [init])
  · intro q hq
    exact absurd hq (by simp [init])
  · intro id t b ht
    exact absurd ht (by simp [init])

theorem finish_backpressure {c : Client S} (hc : Backpressure c) (reason : SessionEnd) :
    Backpressure (c.finish P args env reason) :=
  hc.of_same rfl rfl rfl (fun _ h => h) rfl rfl

theorem pump_backpressure (hops : ops.SendsAtMostOffered) {c : Client S} (hc : Backpressure c) :
    Backpressure (c.pump P ops args env) := by
  have hpoll := Flow.pollAndSend_accounted P ops (link args env) hc.accounts
  have hrelay := Flow.relayAll_accounted ops hops env.order hpoll
  have hlast := Flow.pollAndSend_accounted P ops (link args env) hrelay
  have hpumped : Backpressure { c with flow := _ } := hc.of_flow hlast rfl rfl
  simp only [pump]
  split
  · exact finish_backpressure P args env hpumped .failed
  · exact hpumped

theorem onFrame_backpressure {c : Client S} (hc : Backpressure c) (raw : Bytes) :
    Backpressure (c.onFrame P ops args env raw).1 := by
  have hsame : ∀ c' : Client S, c'.flow.pendingTxBytes = c.flow.pendingTxBytes →
      c'.flow.pendingTx = c.flow.pendingTx → c'.flow.saturated = c.flow.saturated →
      c'.flow.conns = c.flow.conns → c'.toRx = c.toRx → c'.tasks = c.tasks → Backpressure c' :=
    fun c' h1 h2 h3 h4 h5 h6 => hc.of_same h1 h2 h3 (fun h hh => h4 ▸ hh) h5 h6
  simp only [onFrame]
  split
  · exact hc
  split
  · exact hc
  split
  · split
    · exact hsame _ rfl rfl rfl rfl rfl rfl
    · exact hsame _ rfl rfl rfl rfl rfl rfl
  split
  · split
    · exact hsame _ rfl rfl rfl rfl rfl rfl
    split
    · exact hsame _ rfl rfl rfl rfl rfl rfl
    · exact hsame _ rfl rfl rfl rfl rfl rfl
  · exact hc

theorem onAccept_backpressure {c : Client S} (hc : Backpressure c) (forward : Forward) :
    Backpressure (c.onAccept ops forward).1 := by
  simp only [onAccept]
  split
  · exact hc.of_same rfl rfl rfl (fun _ h => h) rfl rfl
  · refine ⟨?_, hc.queued, ?_⟩
    · apply accounted_push hc.accounts _ (ofU16 forward.2)
      · rw [ofU16_length]
        exact Nat.zero_lt_two
      · rfl
      · rw [ofU16_length]
      · rfl
      · exact (AList.mem_insert _).mpr (Or.inl rfl)
      · exact Flow.mem_insert_of_mem _ _ _
    · intro id t b ht hph
      dsimp only at ht
      by_cases hid : id = c.nextConn
      · subst hid
        rw [Function.update_self] at ht
        obtain rfl := Option.some.inj ht
        exact absurd hph (by simp)
      · rw [Function.update_of_ne hid] at ht
        exact hc.sending id t b ht hph

theorem onToRx_backpressure {c : Client S} (hc : Backpressure c) :
    Backpressure (c.onToRx ops).1 := by
  rcases hq : c.toRx with _ | ⟨q, rest⟩
  · simpa only [onToRx, hq] using hc
  have hfits : ∀ b, q.msg = .data b → BridgeFits b := hc.queued q (by rw [hq]; simp)
  have hrest : Backpressure { c with toRx := rest } := by
    refine ⟨hc.accounts, ?_, hc.sending⟩
    intro q' hq'
    exact hc.queued q' (by rw [hq]; exact List.mem_cons_of_mem q hq')
  simp only [onToRx, hq]
  split
  · split
    · exact hrest
    next conn hl =>
    split
    · exact hrest
    split
    next b hb =>
      refine hrest.of_flow ?_ rfl rfl
      apply accounted_push hrest.accounts q.key.1 b (hfits b hb).1
      · rfl
      · rfl
      · rfl
      · exact Flow.mem_of_lookup hl
      · exact fun _ h => h
    next =>
      split
      · exact hrest.of_same rfl rfl rfl (Flow.mem_insert_of_mem _ _ _) rfl rfl
      · exact hrest.of_same rfl rfl rfl (fun _ h => h) rfl rfl
  · exact hc

theorem closeConnection_frame (flow : Flow S ClientExtra) (h : SocketHandle) :
    ∃ s conns, closeConnection ops flow h = { flow with stack := s, conns := conns } ∧
      s = ops.close flow.stack h ∧ ∀ k, k ∈ conns ↔ k ∈ flow.conns := by
  unfold closeConnection
  split
  · exact ⟨_, flow.conns, rfl, rfl, fun k => Iff.rfl⟩
  next conn hl =>
    exact ⟨_, _, rfl, rfl, fun k =>
      ⟨Flow.mem_of_mem_insert (Flow.mem_of_lookup hl) k, Flow.mem_insert_of_mem _ _ _ k⟩⟩

theorem closeConnections_accounted {flow : Flow S ClientExtra} (hf : flow.Accounted 0)
    (hs : List SocketHandle) : (hs.foldl (closeConnection ops) flow).Accounted 0 := by
  refine List.foldlRecOn _ _ hf fun flow hf h _ => ?_
  obtain ⟨s, conns, heq, -, hmem⟩ := closeConnection_frame ops flow h
  rw [heq]
  exact hf.of_eq rfl rfl rfl (fun k hk => (hmem k).mpr hk)

theorem onCommand_backpressure {c : Client S} (hc : Backpressure c)
    (command : Option ForwardCommand) : Backpressure (c.onCommand ops args env command).1 := by
  simp only [onCommand]
  split
  · exact hc
  split
  · exact hc.of_same rfl rfl rfl (fun _ h => h) rfl rfl
  · split
    · exact hc
    split
    · exact hc
    · exact hc.of_same rfl rfl rfl (fun _ h => h) rfl rfl
  · exact hc.of_flow (closeConnections_accounted ops hc.accounts _) rfl rfl

theorem onKeepalive_backpressure {c : Client S} (hc : Backpressure c) :
    Backpressure (c.onKeepalive P args env).1 := by
  simp only [onKeepalive]
  split
  · exact hc.of_same rfl rfl rfl (fun _ h => h) rfl rfl
  split
  · exact hc.of_same rfl rfl rfl (fun _ h => h) rfl rfl
  · exact hc.of_same rfl rfl rfl (fun _ h => h) rfl rfl

theorem setTask_backpressure {c : Client S} (hc : Backpressure c) (id : ConnId) (t : BridgeTask)
    (ht : ∀ b, t.phase = .sending b → BridgeFits b) : Backpressure (c.setTask id t) := by
  refine ⟨hc.accounts, hc.queued, ?_⟩
  intro id' t' b hl hph
  change Function.update c.tasks id (some t) id' = some t' at hl
  by_cases hid : id' = id
  · subst hid
    rw [Function.update_self] at hl
    obtain rfl := Option.some.inj hl
    exact ht b hph
  · rw [Function.update_of_ne hid] at hl
    exact hc.sending id' t' b hl hph

theorem setChan_backpressure {c : Client S} (hc : Backpressure c) (id : ConnId) (chan : Chan) :
    Backpressure (c.setChan id chan) :=
  hc.of_same rfl rfl rfl (fun _ h => h) rfl rfl

theorem pushToRx_backpressure {c : Client S} (hc : Backpressure c) (q : BridgeQueued)
    (hq : ∀ b, q.msg = .data b → BridgeFits b) : Backpressure (c.pushToRx q) := by
  refine ⟨hc.accounts, ?_, hc.sending⟩
  intro q' hq'
  rcases List.mem_append.mp hq' with hold | hnew
  · exact hc.queued q' hold
  · rw [List.mem_singleton] at hnew
    exact hnew ▸ hq

theorem taskStep_backpressure {c : Client S} (hc : Backpressure c) (id : ConnId) (t : BridgeTask)
    (hl : c.tasks id = some t) (act : BridgeAct) : Backpressure (c.taskStep id t act) := by
  -- In every phase but `sending` the new phase carries no message of its own.
  have hset : ∀ (c : Client S) (t' : BridgeTask), Backpressure c →
      (∀ b, t'.phase ≠ .sending b) → Backpressure (c.setTask id t') :=
    fun c t' h hph => setTask_backpressure h id t' (fun b hb => absurd hb (hph b))
  unfold taskStep
  split
  · split
    · exact hc
    split
    · exact hset c _ hc (by simp)
    next hne =>
    split
    next hfit =>
      apply setTask_backpressure hc
      intro b' hb'
      obtain rfl := BridgePhase.sending.inj hb'
      exact ⟨List.length_pos_iff.mpr hne, hfit⟩
    · exact hc
  · split
    · exact hc
    · exact hset c _ hc (by simp)
  · split
    · exact setChan_backpressure (hset c _ hc (by simp)) _ _
    · exact setChan_backpressure (hset c _ hc (by simp)) _ _
    · split
      · exact hc
      · exact hset c _ hc (by simp)
  · split
    · exact hset c _ hc (by simp)
    · exact hc
  · apply hset c _ hc
    intro b
    split <;> simp
  · exact hset c _ hc (by simp)
  next b hph =>
    split
    · exact setChan_backpressure (hset c _ hc (by simp)) _ _
    split
    · apply pushToRx_backpressure (hset c _ hc (by simp))
      intro b' hb'
      obtain rfl := StackMsg.data.inj hb'
      exact hc.sending id t b hl hph
    · exact hc
  next returns hph =>
    split
    · exact hc
    have hsent : Backpressure (if c.ended.isSome then c else c.pushToRx ⟨t.key, .close⟩) := by
      split
      · exact hc
      · exact pushToRx_backpressure hc _ (by simp)
    dsimp only
    split
    · exact setChan_backpressure (hset _ _ hsent (by simp)) _ _
    · exact hset _ _ hsent (by simp)
  · exact hc

theorem branch_backpressure {c : Client S} (hc : Backpressure c) (due : Bool) (e : Event) :
    Backpressure (c.branch P ops args env due e).1 := by
  cases e with
  | frame raw => exact onFrame_backpressure P ops args env hc raw
  | recvFailed => exact hc
  | accept forward => exact onAccept_backpressure ops hc forward
  | toRx => exact onToRx_backpressure ops hc
  | command command => exact onCommand_backpressure ops args env hc command
  | wake => exact hc
  | poll => exact hc
  | keepalive => exact onKeepalive_backpressure P args env hc
  | shutdown => exact hc
  | task id act => exact hc

end Accounts

/-- What a step of the loop is made of: the deadline, a branch, and then the pump, the
end of the loop or nothing. An invariant of these is one of the step. -/
theorem step_induction (I : Client S → Prop) (c : Client S) (e : Event) (hc : I c)
    (htask : ∀ id act t, c.tasks id = some t → I (c.taskStep id t act))
    (hdelay : I { c with flow := { c.flow with stack := (ops.pollDelay env.now c.flow.stack).1 } })
    (hbranch : ∀ c' due, I c' → I (c'.branch P ops args env due e).1)
    (hpump : ∀ c', I c' → I (c'.pump P ops args env))
    (hfinish : ∀ c' reason, I c' → I (c'.finish P args env reason)) :
    I (c.step P ops args env e) := by
  unfold step
  split
  · split
    · exact hc
    next t ht => exact htask _ _ t ht
  · split
    · exact hc
    · have hturn := hbranch _ (ops.pollDelay env.now c.flow.stack).2.isSome hdelay
      dsimp only
      split
      · exact hpump _ hturn
      · exact hturn
      · exact hfinish _ _ hturn

theorem step_backpressure (hops : ops.SendsAtMostOffered) {c : Client S} (hc : Backpressure c)
    (e : Event) : Backpressure (c.step P ops args env e) := by
  apply step_induction P ops args env Backpressure c e hc
  · exact fun id act t ht => taskStep_backpressure hc id t ht act
  · exact hc.of_same rfl rfl rfl (fun _ h => h) rfl rfl
  · exact fun c' due h => branch_backpressure P ops args env h due e
  · exact fun c' h => pump_backpressure P ops args env hops h
  · exact fun c' reason h => finish_backpressure P args env h reason

section Bound

variable {ops} {live : S → SocketHandle → Prop} (law : ops.HandleLaw live)
include law

theorem pump_gated {c : Client S} (hc : Gated live c) : Gated live (c.pump P ops args env) := by
  have hpoll := Flow.pollAndSend_handles (P := P) law (link args env) hc.handles
  have hrelay := Flow.relayAll_handles law env.order hpoll
  have hlast := Flow.pollAndSend_handles (P := P) law (link args env) hrelay
  have hkeep := ((Flow.pollAndSend_keeps P ops (link args env) c.flow).trans
    (Flow.relayAll_keeps ops env.order _)).trans (Flow.pollAndSend_keeps P ops (link args env) _)
  have hle := Assoc.sumBy_le_of_lookup (fun q => queueBytes q - 2) _ c.flow.pendingTx (by
    intro h q' hq'
    obtain ⟨q, hq, hlq⟩ := hkeep.queues h q' hq'
    exact ⟨q, hq, Nat.sub_le_sub_right hlq 2⟩)
  have hbound := lt_of_le_of_lt hle hc.bound
  simp only [pump]
  split
  · exact ⟨hlast, hbound⟩
  · exact ⟨hlast, hbound⟩

theorem onFrame_gated {c : Client S} (hc : Gated live c) (raw : Bytes) :
    Gated live (c.onFrame P ops args env raw).1 := by
  have hsame : ∀ c' : Client S, c'.flow.pendingTx = c.flow.pendingTx →
      c'.flow.conns = c.flow.conns → c'.flow.stack = c.flow.stack → Gated live c' :=
    fun c' h1 h2 h3 => hc.of_same h1 (fun h hh => h2 ▸ hh) (fun h hh => h3 ▸ hh)
  simp only [onFrame]
  split
  · exact hc
  split
  · exact hc
  split
  · split
    · exact hsame _ rfl rfl rfl
    · exact hsame _ rfl rfl rfl
  split
  · split
    · exact hsame _ rfl rfl rfl
    split
    · exact hc.of_same rfl (fun _ h => h) (law.push_keeps _ _)
    · exact hsame _ rfl rfl rfl
  · exact hc

theorem onAccept_gated {c : Client S} (hb : Backpressure c) (hc : Gated live c)
    (forward : Forward) : Gated live (c.onAccept ops forward).1 := by
  simp only [onAccept]
  split
  · exact hc.of_same rfl (fun _ h => h) (fun _ h => h)
  next localPort hport =>
    have hunused := law.connect_unused c.flow.stack serverAddr internalPort localPort
    have hqueue : c.flow.pendingTx.lookup
        (ops.connect c.flow.stack serverAddr internalPort localPort).2 = none := by
      apply Option.eq_none_iff_forall_not_mem.mpr
      intro q hq
      exact hunused (hc.handles _ (hb.accounts.live _ q hq))
    refine ⟨?_, ?_⟩
    · intro h hh
      rcases (AList.mem_insert _).mp hh with rfl | hh
      · exact law.connect_live _ _ _ _
      · exact law.connect_keeps _ _ _ _ h (hc.handles h hh)
    · have hsum := Assoc.sumBy_insert_none (fun q => queueBytes q - 2) _ ([] ++ [ofU16 forward.2])
        c.flow.pendingTx hqueue
      have htwo : queueBytes ([] ++ [ofU16 forward.2]) = 2 := by simp [queueBytes]
      have hbound := hc.bound
      rw [gatedBytes] at hbound
      simp only [gatedBytes, hqueue, Option.getD_none]
      omega

theorem onToRx_gated {c : Client S} (hb : Backpressure c) (hc : Gated live c) :
    Gated live (c.onToRx ops).1 := by
  rcases hq : c.toRx with _ | ⟨q, rest⟩
  · simpa only [onToRx, hq] using hc
  have hfits : ∀ b, q.msg = .data b → BridgeFits b := hb.queued q (by rw [hq]; simp)
  have hrest : Gated live { c with toRx := rest } := hc.of_same rfl (fun _ h => h) (fun _ h => h)
  simp only [onToRx, hq]
  split
  next hgate =>
    split
    · exact hrest
    next conn hl =>
    split
    · exact hrest
    split
    next b hdata =>
      refine ⟨hc.handles, ?_⟩
      have hbytes := hb.accounts.bytes
      have hfit := (hfits b hdata).2
      have hpush := Server.sumBy_push c.flow.pendingTx q.key.1 b
      have hle := Assoc.sumBy_le_sumBy_add (fun q => queueBytes q - 2) queueBytes 0
        (fun q => Nat.sub_le _ 2) (c.flow.pendingTx.insert q.key.1
          ((c.flow.pendingTx.lookup q.key.1).getD [] ++ [b]))
      simp only [gatedBytes]
      omega
    next =>
      split
      · exact hrest.of_same rfl (Flow.mem_of_mem_insert (Flow.mem_of_lookup hl)) (fun _ h => h)
      · exact hrest.of_same rfl (fun _ h => h) (law.close_keeps _ _)
  · exact hc

theorem closeConnections_gated {c : Client S} (hc : Gated live c) (hs : List SocketHandle) :
    Gated live { c with flow := hs.foldl (closeConnection ops) c.flow } := by
  refine List.foldlRecOn (motive := fun flow => Gated live { c with flow := flow }) _ _ hc
    fun flow hflow h _ => ?_
  obtain ⟨s, conns, heq, hclose, hmem⟩ := closeConnection_frame ops flow h
  rw [heq]
  exact hflow.of_same rfl (fun k hk => (hmem k).mp hk)
    (fun k hk => hclose ▸ law.close_keeps _ _ k hk)

theorem onCommand_gated {c : Client S} (hc : Gated live c) (command : Option ForwardCommand) :
    Gated live (c.onCommand ops args env command).1 := by
  have hsame : ∀ c' : Client S, c'.flow = c.flow → Gated live c' :=
    fun c' h => hc.of_same (by rw [h]) (fun k hk => by rwa [h] at hk) (fun k hk => by rwa [h])
  simp only [onCommand]
  split
  · exact hc
  split
  · exact hsame _ rfl
  · split
    · exact hc
    split
    · exact hc
    · exact hsame _ rfl
  · refine closeConnections_gated law ?_ _
    exact hsame _ rfl

omit law in
theorem taskStep_flow (c : Client S) (id : ConnId) (t : BridgeTask) (act : BridgeAct) :
    ∃ chans, (c.taskStep id t act).flow = { c.flow with chans := chans } := by
  unfold taskStep
  split
  · split
    · exact ⟨_, rfl⟩
    split
    · exact ⟨_, rfl⟩
    split
    · exact ⟨_, rfl⟩
    · exact ⟨_, rfl⟩
  · split
    · exact ⟨_, rfl⟩
    · exact ⟨_, rfl⟩
  · split
    · exact ⟨_, rfl⟩
    · exact ⟨_, rfl⟩
    · split
      · exact ⟨_, rfl⟩
      · exact ⟨_, rfl⟩
  · split
    · exact ⟨_, rfl⟩
    · exact ⟨_, rfl⟩
  · exact ⟨_, rfl⟩
  · exact ⟨_, rfl⟩
  · split
    · exact ⟨_, rfl⟩
    split
    · exact ⟨_, rfl⟩
    · exact ⟨_, rfl⟩
  · split
    · exact ⟨_, rfl⟩
    dsimp only
    split
    · split
      · exact ⟨_, rfl⟩
      · exact ⟨_, rfl⟩
    · split
      · exact ⟨_, rfl⟩
      · exact ⟨_, rfl⟩
  · exact ⟨_, rfl⟩

theorem branch_gated {c : Client S} (hb : Backpressure c) (hc : Gated live c) (due : Bool)
    (e : Event) : Gated live (c.branch P ops args env due e).1 := by
  cases e with
  | frame raw => exact onFrame_gated P args env law hc raw
  | recvFailed => exact hc
  | accept forward => exact onAccept_gated law hb hc forward
  | toRx => exact onToRx_gated law hb hc
  | command command => exact onCommand_gated args env law hc command
  | wake => exact hc
  | poll => exact hc
  | keepalive =>
    simp only [branch, onKeepalive]
    split
    · exact hc.of_same rfl (fun _ h => h) (fun _ h => h)
    split
    · exact hc.of_same rfl (fun _ h => h) (fun _ h => h)
    · exact hc.of_same rfl (fun _ h => h) (fun _ h => h)
  | shutdown => exact hc
  | task id act => exact hc

theorem step_gated (hops : ops.SendsAtMostOffered) {c : Client S} (hb : Backpressure c)
    (hc : Gated live c) (e : Event) :
    Backpressure (c.step P ops args env e) ∧ Gated live (c.step P ops args env e) := by
  apply step_induction P ops args env (fun c => Backpressure c ∧ Gated live c) c e ⟨hb, hc⟩
  · intro id act t ht
    refine ⟨taskStep_backpressure hb id t ht act, ?_⟩
    obtain ⟨chans, hflow⟩ := taskStep_flow c id t act
    refine hc.of_same ?_ ?_ ?_
    · rw [hflow]
    · rw [hflow]
      exact fun _ h => h
    · rw [hflow]
      exact fun _ h => h
  · exact ⟨hb.of_same rfl rfl rfl (fun _ h => h) rfl rfl,
      hc.of_same rfl (fun _ h => h) (law.delay_keeps _ _)⟩
  · exact fun c' due h => ⟨branch_backpressure P ops args env h.1 due e,
      branch_gated P args env law h.1 h.2 due e⟩
  · exact fun c' h => ⟨pump_backpressure P ops args env hops h.1, pump_gated P args env law h.2⟩
  · exact fun c' reason h => ⟨finish_backpressure P args env h.1 reason,
      h.2.of_same rfl (fun _ h => h) (fun _ h => h)⟩

theorem run_gated (hops : ops.SendsAtMostOffered) (events : List (ClientEnv × Event))
    {c : Client S} (hb : Backpressure c) (hc : Gated live c) :
    Gated live (c.run P ops args events) := by
  unfold run
  induction events generalizing c with
  | nil => exact hc
  | cons e es ih =>
    obtain ⟨hb', hc'⟩ := step_gated P args e.1 law hops hb hc e.2
    exact ih hb' hc'

omit law in
theorem init_gated (now : Instant) (seed : UInt64) : Gated live (Client.init ops args now seed) := by
  have hpos : 0 < maxPendingToStackBytes + bridgeBufferLen := by decide
  refine ⟨?_, hpos⟩
  intro h hh
  exact absurd hh (AList.notMem_empty h)

end Bound

theorem run_backpressure (hops : ops.SendsAtMostOffered) (events : List (ClientEnv × Event))
    {c : Client S} (hc : Backpressure c) : Backpressure (c.run P ops args events) := by
  unfold run
  induction events generalizing c with
  | nil => exact hc
  | cons e es ih => exact ih (step_backpressure P ops args e.1 hops hc e.2)

omit ops in
theorem pendingTxBytes_lt {live : S → SocketHandle → Prop} {c : Client S} (hb : Backpressure c)
    (hc : Gated live c) : c.flow.pendingTxBytes <
      maxPendingToStackBytes + bridgeBufferLen + 2 * c.flow.conns.keys.length := by
  have hbytes := hb.accounts.bytes
  have hbound := hc.bound
  have hslack := Assoc.sumBy_le_sumBy_add queueBytes (fun q => queueBytes q - 2) 2
    (fun q => by omega) c.flow.pendingTx
  have hkeys := Assoc.keys_length_le c.flow.pendingTx c.flow.conns (by
    intro h hh
    obtain ⟨q, hq⟩ := Option.isSome_iff_exists.mp (AList.lookup_isSome.mpr hh)
    exact hb.accounts.live h q hq)
  rw [gatedBytes] at hbound
  omega

end Client

/-- The byte counters of both sides are exact over every run: what they count is what is
queued, the queues belong to live connections, no subtraction falls below zero, and the
gate bounds them. -/
theorem run_accounts {S Sock : Type} (P : Primitives) (ops : StackOps S Sock)
    (hops : ops.SendsAtMostOffered) :
    (∀ (cfg : ServerConfig) (master : MasterKey) (now : Instant)
        (events : List (ServerEnv × Server.Event)),
      let s := (Server.init now : Server S).run P ops cfg master events
      s.pendingTxBytes = s.queuedBytes ∧
      (∀ mac p, s.peers.lookup mac = some p → ∀ h q, p.pendingTx.lookup h = some q →
        h ∈ p.conns ∧ q ≠ [] ∧ [] ∉ q) ∧
      s.saturated = false ∧ s.pendingTxBytes < maxPendingToStackBytes + 8192) ∧
    (∀ (args : SessionArgs) (now : Instant) (seed : UInt64)
        (events : List (ClientEnv × Client.Event)),
      let c := (Client.init ops args now seed).run P ops args events
      c.flow.pendingTxBytes = c.flow.pendingTx.sumBy queueBytes ∧
      (∀ h q, c.flow.pendingTx.lookup h = some q → h ∈ c.flow.conns ∧ q ≠ [] ∧ [] ∉ q) ∧
      c.flow.saturated = false ∧
      (ops.HandlesFresh → c.flow.pendingTxBytes <
        maxPendingToStackBytes + 8192 + 2 * c.flow.conns.keys.length)) := by
  refine ⟨?_, ?_⟩
  · intro cfg master now events
    have hs := Server.run_backpressure P ops cfg master hops events
      (Server.Backpressure.init (S := S) now)
    refine ⟨hs.bytes, ?_, hs.unsaturated, hs.bound⟩
    intro mac p hp h q hq
    exact ⟨(hs.peers mac p hp).live h q hq, (hs.peers mac p hp).queues h q hq⟩
  · intro args now seed events
    have hinit := Client.init_backpressure ops args now seed
    have hc := Client.run_backpressure P ops args hops events hinit
    refine ⟨?_, ?_, hc.accounts.unsaturated, ?_⟩
    · have hbytes := hc.accounts.bytes
      rwa [Nat.zero_add] at hbytes
    · intro h q hq
      exact ⟨hc.accounts.live h q hq, hc.accounts.queues h q hq⟩
    · rintro ⟨live, law⟩
      exact Client.pendingTxBytes_lt hc
        (Client.run_gated P args law hops events hinit (Client.init_gated args now seed))

/-- One local connection on the concrete stack. -/
theorem run_accounts_sample :
    tableStackOps.SendsAtMostOffered ∧ tableStackOps.HandlesFresh ∧
      (((Client.init tableStackOps sampleArgs 0 0).run (tablePrimitives []) tableStackOps sampleArgs
          [(sampleClientEnv, .accept (8022, 22))]).flow.pendingTxBytes <
        maxPendingToStackBytes + 8192 + 2 *
          ((Client.init tableStackOps sampleArgs 0 0).run (tablePrimitives []) tableStackOps sampleArgs
            [(sampleClientEnv, .accept (8022, 22))]).flow.conns.keys.length) :=
  ⟨tableStackOps_sendsAtMostOffered, tableStackOps_handlesFresh,
    ((run_accounts (tablePrimitives []) tableStackOps tableStackOps_sendsAtMostOffered).2
      sampleArgs 0 0 [(sampleClientEnv, .accept (8022, 22))]).2.2.2 tableStackOps_handlesFresh⟩

end LandscapeKit.Flare
