import Mathlib.Logic.Relation
import LandscapeKit.FlareServerStep

/-!
What a turn of the server can do to the relayed connections, said once: every handler
is a sequence of moves on the peer table, at most one of them a pump at the end.
-/

namespace LandscapeKit.Flare

open Bytes Relation

structure RelayPart where
  pendingTxBytes : ℕ
  saturated : Bool
  toRx : List Queued
  tasks : ConnId → Option ConnTask
  applied : List (ConnId × ConnId)
  nextConn : ConnId

structure PeerRelay where
  conns : Assoc SocketHandle ServerConn
  pendingTx : Assoc SocketHandle (List Bytes)
  listeners : List SocketHandle
  nextGeneration : UInt64

namespace Peer

variable {S : Type}

def relay (p : Peer S) : PeerRelay := ⟨p.conns, p.pendingTx, p.listeners, p.nextGeneration⟩

def bytes (p : Peer S) : ℕ := p.pendingTx.sumBy queueBytes

end Peer

namespace Server

variable {S Sock : Type}

def relay (s : Server S) : RelayPart :=
  ⟨s.pendingTxBytes, s.saturated, s.toRx, s.tasks, s.applied, s.nextConn⟩

/-- One move: bookkeeping outside the relay, a peer changed outside its relay part, a
new peer, a peer whose session starts over, or a peer removed. -/
inductive Move (s s' : Server S) : Prop
  | book (hp : s'.peers = s.peers) (hr : s'.relay = s.relay)
  | touch (mac : Mac) (p p' : Peer S) (hl : s.peers.lookup mac = some p)
      (hp : s'.peers = s.peers.insert mac p') (hp' : p'.relay = p.relay) (hr : s'.relay = s.relay)
  | create (mac : Mac) (p' : Peer S) (hl : s.peers.lookup mac = none)
      (hp : s'.peers = s.peers.insert mac p') (hp' : p'.relay = ⟨∅, ∅, [], 1⟩)
      (hr : s'.relay = s.relay)
  | renew (mac : Mac) (p p' : Peer S) (listeners : List SocketHandle)
      (hl : s.peers.lookup mac = some p) (hp : s'.peers = s.peers.insert mac p')
      (hlen : listeners.length = listenerPoolSize)
      (hp' : p'.relay = ⟨∅, ∅, listeners, p.nextGeneration⟩)
      (hr : s'.relay = (s.subBytes p.bytes).relay)
  | remove (mac : Mac) (hs : s' = s.removePeer mac)

def Touched (mac : Mac) (s s' : Server S) : Prop :=
  ∃ p p', s.peers.lookup mac = some p ∧ s'.peers = s.peers.insert mac p' ∧ p'.relay = p.relay ∧
    s'.relay = s.relay

theorem Touched.move {mac : Mac} {s s' : Server S} (h : Touched mac s s') : Move s s' := by
  obtain ⟨p, p', hl, hp, hp', hr⟩ := h
  exact .touch mac p p' hl hp hp' hr

def Moves : Server S → Server S → Prop := ReflTransGen Move

namespace Moves

theorem refl (s : Server S) : Moves s s := ReflTransGen.refl

theorem single {s s' : Server S} (h : Move s s') : Moves s s' := ReflTransGen.single h

theorem trans {s₁ s₂ s₃ : Server S} (h₁ : Moves s₁ s₂) (h₂ : Moves s₂ s₃) : Moves s₁ s₃ :=
  ReflTransGen.trans h₁ h₂

theorem book {s s' : Server S} (hp : s'.peers = s.peers) (hr : s'.relay = s.relay) : Moves s s' :=
  single (.book hp hr)

theorem preserves {I : Server S → Prop} (hI : ∀ s s', I s → Move s s' → I s') {s s' : Server S}
    (hs : I s) (h : Moves s s') : I s' := by
  induction h with
  | refl => exact hs
  | tail _ hmove ih => exact hI _ _ ih hmove

end Moves

section Frames

variable (P : Primitives) (ops : StackOps S Sock) (cfg : ServerConfig) (master : MasterKey)
  (env : ServerEnv)

theorem answerDiscover_moves (s : Server S) (mac : Mac) (ifindex : Int32) (id : UInt64) :
    Moves s (s.answerDiscover P cfg master env mac ifindex id) := by
  apply Moves.single
  rcases hl : s.peers.lookup mac with _ | peer
  · simp only [answerDiscover, hl, Option.getD_none]
    exact .create mac _ hl rfl rfl rfl
  · simp only [answerDiscover, hl, Option.getD_some]
    exact .touch mac peer _ hl rfl rfl rfl

theorem onDiscover_moves (s : Server S) (mac : Mac) (ifindex : Int32) (l : Frame) :
    Moves s (s.onDiscover P cfg master env mac ifindex l) := by
  have hspent : Moves s (s.spendGlobal env).2 := .book rfl rfl
  have hrate : Moves s ((s.spendGlobal env).2.spendRate env mac).2 := .book rfl rfl
  simp only [onDiscover]
  split
  · exact hspent
  split
  · exact hrate
  split
  · exact hrate
  split
  · exact hrate
  split
  · exact hrate
  · exact hrate.trans (answerDiscover_moves P cfg master env _ mac ifindex _)

theorem freshStack_listeners : (freshStack ops env).2.length = listenerPoolSize := by
  have hfold : ∀ (ns : List ℕ) (acc : S × List SocketHandle),
      (ns.foldl (fun acc _ =>
        let added := ops.listen acc.1 internalPort
        (added.1, acc.2 ++ [added.2])) acc).2.length = acc.2.length + ns.length := by
    intro ns
    induction ns with
    | nil => exact fun _ => rfl
    | cons n ns ih =>
      intro acc
      rw [List.foldl_cons, ih, List.length_append, List.length_singleton, List.length_cons]
      omega
  have hlen := hfold (List.range listenerPoolSize) (ops.create serverAddr env.seed env.now, [])
  rw [List.length_nil, List.length_range, Nat.zero_add] at hlen
  exact hlen

theorem establish_moves (s : Server S) (mac : Mac) (peer peer' : Peer S)
    (hl : s.peers.lookup mac = some peer) (hp : peer'.relay = peer.relay) (i : Int32)
    (sid : UInt32) (keys : SessionKeys) (proof : Digest) (hkey : HandshakeKeys) :
    Moves s (s.establish P ops env mac peer' i sid keys proof hkey) := by
  have hgen : peer'.nextGeneration = peer.nextGeneration := congrArg PeerRelay.nextGeneration hp
  have hbytes : peer'.pendingTx = peer.pendingTx := congrArg PeerRelay.pendingTx hp
  apply Moves.single
  refine .renew mac peer _ (freshStack ops env).2 hl rfl (freshStack_listeners ops env) ?_ ?_
  · rw [← hgen]
    rfl
  · rw [Peer.bytes, ← hbytes]
    rfl

theorem reject_moves (s : Server S) (mac : Mac) (peer peer' : Peer S)
    (hl : s.peers.lookup mac = some peer) (hp : peer'.relay = peer.relay) (i : Int32)
    (reason : String) (hkey : HandshakeKeys) :
    Moves s (s.reject P env mac peer' i reason hkey) := by
  have htouch : ∀ s' : Server S, s'.peers = s.peers.insert mac peer' → s'.relay = s.relay →
      Moves s s' := fun s' h1 h2 => .single (.touch mac peer peer' hl h1 hp h2)
  simp only [reject]
  split
  · exact htouch _ rfl rfl
  split
  · exact htouch _ rfl rfl
  · refine Moves.trans ?_ (.single (.remove mac rfl))
    simp only [countFailure]
    split
    · exact htouch _ rfl rfl
    · exact htouch _ rfl rfl

theorem verifyReq_moves (s : Server S) (mac : Mac) (peer : Peer S)
    (hl : s.peers.lookup mac = some peer) (l : Frame) :
    Moves s (s.verifyReq P ops master env mac peer l) := by
  have hlog : Moves s { s with verdicts := s.verdicts ++
      [⟨env.now, mac, l, peer.sess.pending, (peer.sess.verifyAuth P l master).1⟩] } :=
    .book rfl rfl
  simp only [verifyReq]
  split
  · apply hlog.trans
    apply establish_moves P ops env _ mac peer
    · exact hl
    · rfl
  · apply hlog.trans
    apply reject_moves P env _ mac peer
    · exact hl
    · rfl
  · exact .single (.touch mac peer _ hl rfl rfl rfl)

theorem onAuthReq_moves (s : Server S) (mac : Mac) (l : Frame) :
    Moves s (s.onAuthReq P ops master env mac l) := by
  have hspent : Moves s (s.spendGlobal env).2 := .book rfl rfl
  have hrate : Moves s ((s.spendGlobal env).2.spendRate env mac).2 := .book rfl rfl
  simp only [onAuthReq]
  split
  · exact hspent
  split
  · exact hspent
  next peer hl =>
  split
  · exact hrate
  have hguard : Moves s (((s.spendGlobal env).2.spendRate env mac).2.setGuard mac
      ((((s.spendGlobal env).2.spendRate env mac).2.guardOf env mac).blocked env.now).2) :=
    .book rfl rfl
  split
  · refine hguard.trans ?_
    simp only [refuseLocked]
    split
    · exact .refl _
    split
    · exact .single (.touch mac peer _ hl rfl rfl rfl)
    · exact .single (.touch mac peer _ hl rfl rfl rfl)
  · apply hguard.trans
    apply verifyReq_moves P ops master env _ mac peer
    exact hl

theorem sessionOf_lookup {s : Server S} {mac : Mac} {l : Frame} {peer : Peer S}
    {crypto : SessionCrypto} (h : s.sessionOf mac l = some (peer, crypto)) :
    s.peers.lookup mac = some peer ∧ peer.crypto = some crypto ∧
      peer.sess.sessionId = some l.sessionId := by
  unfold sessionOf at h
  split at h
  · exact absurd h (by simp)
  next p hl =>
    split at h
    · exact absurd h (by simp)
    next hsid =>
      obtain ⟨c, hc, heq⟩ := Option.map_eq_some_iff.mp h
      obtain ⟨rfl, rfl⟩ := Prod.mk.inj heq
      exact ⟨hl, hc, not_not.mp hsid⟩

theorem onTeardown_moves (s : Server S) (mac : Mac) (l : Frame) :
    Moves s (s.onTeardown P env mac l) := by
  simp only [onTeardown]
  split
  · exact .refl s
  next peer crypto hso =>
  have hl := (sessionOf_lookup hso).1
  split
  · exact .single (.touch mac peer _ hl rfl rfl rfl)
  · refine Moves.trans ?_ (.single (.remove mac rfl))
    exact .single (.touch mac peer _ hl rfl rfl rfl)

theorem onKeepalive_moves (s : Server S) (mac : Mac) (l : Frame) :
    Moves s (s.onKeepalive P env mac l) := by
  simp only [onKeepalive]
  split
  · exact .refl s
  next peer crypto hso =>
  have hl := (sessionOf_lookup hso).1
  split
  · exact .single (.touch mac peer _ hl rfl rfl rfl)
  · exact .single (.touch mac peer _ hl rfl rfl rfl)

theorem onFrame_moves (s : Server S) (mac : Mac) (ifindex : Int32) (raw : Bytes) :
    Moves s (s.onFrame P ops cfg master env mac ifindex raw) ∨
      ∃ s₁ sid, Touched mac s s₁ ∧
        s.onFrame P ops cfg master env mac ifindex raw = s₁.pumpPeer P ops env mac sid := by
  unfold onFrame
  split
  · left
    simp only [onBadVersion]
    split
    · exact .book rfl rfl
    · exact .book rfl rfl
  · exact Or.inl (.refl s)
  split
  · exact Or.inl (onDiscover_moves P cfg master env s mac ifindex _)
  split
  · exact Or.inl (onAuthReq_moves P ops master env s mac _)
  split
  · exact Or.inl (onKeepalive_moves P env s mac _)
  split
  · simp only [onData]
    split
    · exact Or.inl (.refl s)
    next peer crypto hso =>
    have hl := (sessionOf_lookup hso).1
    split
    · exact Or.inl (.single (.touch mac peer _ hl rfl rfl rfl))
    split
    · exact Or.inl (.single (.touch mac peer _ hl rfl rfl rfl))
    · right
      refine ⟨_, _, ?_, rfl⟩
      exact ⟨peer, _, hl, rfl, rfl, rfl⟩
  split
  · exact Or.inl (onTeardown_moves P env s mac _)
  · exact Or.inl (.refl s)

end Frames

section Pump

variable (P : Primitives) (ops : StackOps S Sock) (env : ServerEnv)

theorem pumpSession_induction {I : Server S → Prop} {s : Server S} (hs : I s) (mac : Mac)
    (hpump : ∀ sid, I (s.pumpPeer P ops env mac sid)) : I (s.pumpSession P ops env mac) := by
  unfold pumpSession
  split
  · exact hs
  split
  · exact hs
  · exact hpump _

theorem pumpEach_induction {I : Server S → Prop} {s : Server S} (hs : I s) (macs : List Mac)
    (hpump : ∀ s mac, I s → ∀ sid, I (s.pumpPeer P ops env mac sid)) :
    I (s.pumpEach P ops env macs) := by
  refine List.foldlRecOn _ _ hs fun s hs mac _ => ?_
  split
  · exact pumpSession_induction P ops env hs mac (hpump s mac hs)
  · exact hs

end Pump

section Loop

variable (P : Primitives) (env : ServerEnv)

def retainFresh (s : Server S) : Server S :=
  { s with
    rate := Assoc.retain (fun b => env.now - b.lastSeen ≤ staleAfter) s.rate
    failRate := Assoc.retain (fun b => env.now - b.lastSeen ≤ staleAfter) s.failRate
    guards := Assoc.retain (fun g => env.now - g.lastSeen ≤ staleAfter) s.guards }

theorem sendTeardown_moves (s : Server S) (mac : Mac) : Moves s (s.sendTeardown P env mac) := by
  simp only [sendTeardown]
  split
  · exact .refl s
  next peer hl =>
  split
  · exact .single (.touch mac peer _ hl rfl rfl rfl)
  · exact .refl s

theorem onSweep_induction {I : Server S → Prop} {s : Server S}
    (hfresh : I (s.retainFresh env))
    (hstale : ∀ s mac, I s → I ((s.sendTeardown P env mac).removePeer mac)) :
    I (s.onSweep P env) :=
  List.foldlRecOn _ _ hfresh fun s hs mac _ => hstale s mac hs

theorem onShutdown_induction {I : Server S → Prop} {s : Server S} (hs : I s)
    (hteardown : ∀ s mac, I s → I (s.sendTeardown P env mac))
    (hstop : ∀ s, I s → I { s with running := false }) : I (s.onShutdown P env) :=
  hstop _ (List.foldlRecOn _ _ hs fun s hs mac _ => hteardown s mac hs)

theorem onSweep_moves (s : Server S) : Moves s (s.onSweep P env) := by
  apply onSweep_induction P env (I := Moves s)
  · exact .book rfl rfl
  · exact fun s' mac h => (h.trans (sendTeardown_moves P env s' mac)).trans (.single (.remove mac rfl))

theorem onShutdown_moves (s : Server S) : Moves s (s.onShutdown P env) := by
  apply onShutdown_induction P env (I := Moves s) (.refl s)
  · exact fun s' mac h => h.trans (sendTeardown_moves P env s' mac)
  · exact fun s' h => h.trans (.book rfl rfl)

end Loop

end Server

end LandscapeKit.Flare
