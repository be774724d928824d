import LandscapeKit.FlareServerStep

/-!
A live session is disturbed only by its own peer: what a received frame can
change in the peer table and in the lockout guards.
-/

namespace LandscapeKit.Flare

open Bytes

namespace Server

variable {S Sock : Type}

@[simp] theorem subBytes_peers (s : Server S) (n : ℕ) : (s.subBytes n).peers = s.peers := rfl

@[simp] theorem subBytes_guards (s : Server S) (n : ℕ) : (s.subBytes n).guards = s.guards := rfl

@[simp] theorem setGuard_peers (s : Server S) (m : Mac) (g : AuthGuard) :
    (s.setGuard m g).peers = s.peers := rfl

@[simp] theorem setGuard_guards (s : Server S) (m : Mac) (g : AuthGuard) :
    (s.setGuard m g).guards = s.guards.insert m g := rfl

def OnlyTouches (mac : Mac) (s s' : Server S) : Prop :=
  ∀ m, m ≠ mac → s'.peers.lookup m = s.peers.lookup m ∧ s'.guards.lookup m = s.guards.lookup m

namespace OnlyTouches

theorem of_eq {mac : Mac} {s s' : Server S} (hp : s'.peers = s.peers) (hg : s'.guards = s.guards) :
    OnlyTouches mac s s' := by
  intro m _
  rw [hp, hg]
  exact ⟨rfl, rfl⟩

theorem refl (mac : Mac) (s : Server S) : OnlyTouches mac s s := of_eq rfl rfl

theorem trans {mac : Mac} {s₁ s₂ s₃ : Server S} (h₁ : OnlyTouches mac s₁ s₂)
    (h₂ : OnlyTouches mac s₂ s₃) : OnlyTouches mac s₁ s₃ := by
  intro m hm
  exact ⟨(h₂ m hm).1.trans (h₁ m hm).1, (h₂ m hm).2.trans (h₁ m hm).2⟩

theorem of_insert {mac : Mac} {s s' : Server S} (p : Peer S) (hp : s'.peers = s.peers.insert mac p)
    (hg : s'.guards = s.guards) : OnlyTouches mac s s' := by
  intro m hm
  rw [hp, hg, AList.lookup_insert_ne hm]
  exact ⟨rfl, rfl⟩

theorem of_inserts {mac : Mac} {s s' : Server S} (p : Peer S) (g : AuthGuard)
    (hp : s'.peers = s.peers.insert mac p) (hg : s'.guards = s.guards.insert mac g) :
    OnlyTouches mac s s' := by
  intro m hm
  rw [hp, hg, AList.lookup_insert_ne hm, AList.lookup_insert_ne hm]
  exact ⟨rfl, rfl⟩

end OnlyTouches

section Frames

variable (P : Primitives) (ops : StackOps S Sock) (cfg : ServerConfig) (master : MasterKey)
  (env : ServerEnv)

theorem setGuard_touches (s : Server S) (mac : Mac) (g : AuthGuard) :
    OnlyTouches mac s (s.setGuard mac g) := by
  intro m hm
  rw [setGuard_peers, setGuard_guards, AList.lookup_insert_ne hm]
  exact ⟨rfl, rfl⟩

theorem removePeer_touches (s : Server S) (mac : Mac) : OnlyTouches mac s (s.removePeer mac) := by
  unfold removePeer
  split
  · exact .refl mac s
  · intro m hm
    rw [subBytes_peers, subBytes_guards]
    exact ⟨AList.lookup_erase_ne hm, rfl⟩

theorem pumpPeer_touches (s : Server S) (mac : Mac) (sid : UInt32) :
    OnlyTouches mac s (s.pumpPeer P ops env mac sid) := by
  unfold pumpPeer
  split
  · exact .refl mac s
  split
  · exact .of_insert _ rfl rfl
  · exact .refl mac s

theorem onDiscover_touches (s : Server S) (mac : Mac) (ifindex : Int32) (l : Frame) :
    OnlyTouches mac s (s.onDiscover P cfg master env mac ifindex l) := by
  have hspent : OnlyTouches mac s (s.spendGlobal env).2 := .of_eq rfl rfl
  have hrate : OnlyTouches mac s ((s.spendGlobal env).2.spendRate env mac).2 := .of_eq rfl rfl
  simp only [onDiscover]
  split
  · exact hspent
  split
  · exact hrate
  split
  · exact hrate
  split
  · exact hrate
  split
  · exact hrate
  · exact hrate.trans (.of_insert _ rfl rfl)

theorem refuseLocked_touches (s : Server S) (mac : Mac) (peer : Peer S) (guard : AuthGuard)
    (replyIfindex : Int32) :
    OnlyTouches mac s (s.refuseLocked P master env mac peer guard replyIfindex) := by
  simp only [refuseLocked]
  split
  · exact .refl mac s
  split
  · exact .of_insert _ rfl rfl
  · exact .of_insert _ rfl rfl

theorem verifyReq_touches (s : Server S) (mac : Mac) (peer : Peer S) (l : Frame) :
    OnlyTouches mac s (s.verifyReq P ops master env mac peer l) := by
  simp only [verifyReq]
  split
  · exact .of_inserts _ _ rfl rfl
  · simp only [reject]
    split
    · exact .of_insert _ rfl rfl
    split
    · exact .of_insert _ rfl rfl
    · refine OnlyTouches.trans ?_ (removePeer_touches _ mac)
      simp only [countFailure]
      split
      · exact .of_inserts _ _ rfl rfl
      · exact .of_insert _ rfl rfl
  · exact .of_insert _ rfl rfl

theorem onAuthReq_touches (s : Server S) (mac : Mac) (l : Frame) :
    OnlyTouches mac s (s.onAuthReq P ops master env mac l) := by
  have hspent : OnlyTouches mac s (s.spendGlobal env).2 := .of_eq rfl rfl
  have hrate : OnlyTouches mac s ((s.spendGlobal env).2.spendRate env mac).2 := .of_eq rfl rfl
  simp only [onAuthReq]
  split
  · exact hspent
  split
  · exact hspent
  split
  · exact hrate
  have hguard := hrate.trans (setGuard_touches _ mac
    ((((s.spendGlobal env).2.spendRate env mac).2.guardOf env mac).blocked env.now).2)
  split
  · exact hguard.trans (refuseLocked_touches P master env _ mac _ _ _)
  · exact hguard.trans (verifyReq_touches P ops master env _ mac _ l)

theorem onFrame_touches (s : Server S) (mac : Mac) (ifindex : Int32) (raw : Bytes) :
    OnlyTouches mac s (s.onFrame P ops cfg master env mac ifindex raw) := by
  unfold onFrame
  split
  · simp only [onBadVersion]
    split
    · exact .of_eq rfl rfl
    · exact .of_eq rfl rfl
  · exact .refl mac s
  split
  · exact onDiscover_touches P cfg master env s mac ifindex _
  split
  · exact onAuthReq_touches P ops master env s mac _
  split
  · simp only [onKeepalive]
    split
    · exact .refl mac s
    split
    · exact .of_insert _ rfl rfl
    · exact .of_insert _ rfl rfl
  split
  · simp only [onData]
    split
    · exact .refl mac s
    split
    · exact .of_insert _ rfl rfl
    split
    · exact .of_insert _ rfl rfl
    · refine OnlyTouches.trans ?_ (pumpPeer_touches P ops env _ mac _)
      exact .of_insert _ rfl rfl
  split
  · simp only [onTeardown]
    split
    · exact .refl mac s
    split
    · exact .of_insert _ rfl rfl
    · refine OnlyTouches.trans ?_ (removePeer_touches _ mac)
      exact .of_insert _ rfl rfl
  · exact .refl mac s

structure SameSession (peer peer' : Peer S) : Prop where
  phase : peer'.sess.phase = peer.sess.phase
  crypto : peer'.crypto = peer.crypto
  stack : peer'.stack = peer.stack
  conns : peer'.conns = peer.conns
  pendingTx : peer'.pendingTx = peer.pendingTx
  ifindex : peer'.ifindex = peer.ifindex
  lastSeen : peer'.lastSeen = peer.lastSeen

theorem SameSession.refl (peer : Peer S) : SameSession peer peer :=
  ⟨rfl, rfl, rfl, rfl, rfl, rfl, rfl⟩

structure SameLockout (g g' : AuthGuard) : Prop where
  fails : g'.fails = g.fails
  windowStart : g'.windowStart = g.windowStart
  lockedUntil : g'.lockedUntil = g.lockedUntil

def Undisturbed (mac : Mac) (peer : Peer S) (s s' : Server S) : Prop :=
  (∃ peer', s'.peers.lookup mac = some peer' ∧ SameSession peer peer') ∧
    SameLockout (s.guardOf env mac) (s'.guardOf env mac)

theorem Undisturbed.of_guards {mac : Mac} {peer peer' : Peer S} {s s' : Server S}
    (hp : s'.peers.lookup mac = some peer') (hs : SameSession peer peer')
    (hg : s'.guards.lookup mac = s.guards.lookup mac) : Undisturbed env mac peer s s' := by
  refine ⟨⟨peer', hp, hs⟩, ?_⟩
  simp only [guardOf, hg]
  exact ⟨rfl, rfl, rfl⟩

theorem openSession_none (c : SessionCrypto) (t : UInt8) (sid seq : UInt32) (len : UInt16)
    (sealed : Bytes) (h : (c.openSession P t sid seq len sealed).1 = none) :
    (c.openSession P t sid seq len sealed).2 = c := by
  rcases ho : c.keys.openWith P c.txDir.rx seq (encodeHeader t sid seq len) sealed with _ | plain
  · simp only [SessionCrypto.openSession, ho]
  · simp only [SessionCrypto.openSession, ho] at h ⊢
    rcases hl : c.rx.last with _ | last
    · simp [ReplayWindow.accept, hl] at h
    · by_cases hle : (seq - last).toInt32 ≤ 0
      · simp only [ReplayWindow.accept, hl, hle, if_true]
      · simp only [ReplayWindow.accept, hl, hle, if_false, if_true] at h
        exact absurd h (by simp)

theorem onDiscover_undisturbed (s : Server S) (mac : Mac) (ifindex : Int32) (l : Frame)
    (peer : Peer S) (hp : s.peers.lookup mac = some peer) :
    Undisturbed env mac peer s (s.onDiscover P cfg master env mac ifindex l) := by
  have hspent : Undisturbed env mac peer s (s.spendGlobal env).2 :=
    .of_guards env hp (.refl peer) rfl
  have hrate : Undisturbed env mac peer s ((s.spendGlobal env).2.spendRate env mac).2 :=
    .of_guards env hp (.refl peer) rfl
  have hlook : (((s.spendGlobal env).2.spendRate env mac).2.peers.lookup mac).getD
      (newPeer env.now) = peer := by
    change (s.peers.lookup mac).getD (newPeer env.now) = peer
    rw [hp]
    rfl
  simp only [onDiscover]
  split
  · exact hspent
  split
  · exact hrate
  split
  · exact hrate
  split
  · exact hrate
  split
  · exact hrate
  · simp only [answerDiscover, hlook]
    refine .of_guards env (AList.lookup_insert _) ?_ rfl
    exact ⟨rfl, rfl, rfl, rfl, rfl, rfl, rfl⟩

/-- With a session the lockout check always falls through to the verification, and
anything but an acceptance leaves the session alone. -/
theorem onAuthReq_undisturbed (s : Server S) (mac : Mac) (l : Frame) (peer : Peer S)
    (hp : s.peers.lookup mac = some peer) (hsess : peer.sess.sessionId.isSome)
    (hauth : ∀ sid keys proof hkey user,
      (peer.sess.verifyAuth P l master).1 ≠ .accepted sid keys proof hkey user) :
    Undisturbed env mac peer s (s.onAuthReq P ops master env mac l) ∧
      ((s.spendGlobal env).1 → ((s.spendGlobal env).2.spendRate env mac).1 →
        (s.onAuthReq P ops master env mac l).verdicts = s.verdicts ++
          [⟨env.now, mac, l, peer.sess.pending, (peer.sess.verifyAuth P l master).1⟩]) := by
  have hactive : peer.sess.sessionId.isNone = false := by
    rw [Option.isNone_eq_false_iff]
    exact hsess
  have hlook : (s.spendGlobal env).2.peers.lookup mac = some peer := hp
  simp only [onAuthReq, hlook, hactive, Bool.and_false, Bool.false_eq_true, if_false]
  have hspent : Undisturbed env mac peer s (s.spendGlobal env).2 :=
    .of_guards env hp (.refl peer) rfl
  have hrate : Undisturbed env mac peer s ((s.spendGlobal env).2.spendRate env mac).2 :=
    .of_guards env hp (.refl peer) rfl
  split
  next hno =>
    refine ⟨hspent, fun hyes => ?_⟩
    rw [hyes] at hno
    exact absurd hno (by decide)
  split
  next hno =>
    refine ⟨hrate, fun _ hyes => ?_⟩
    rw [hyes] at hno
    exact absurd hno (by decide)
  have hguard : ∀ s' : Server S, s'.guards = (((s.spendGlobal env).2.spendRate env mac).2.setGuard
      mac ((((s.spendGlobal env).2.spendRate env mac).2.guardOf env mac).blocked env.now).2).guards →
      SameLockout (s.guardOf env mac) (s'.guardOf env mac) := by
    intro s' hs'
    simp only [guardOf, hs', setGuard_guards, AList.lookup_insert, Option.getD_some]
    exact ⟨rfl, rfl, rfl⟩
  rcases ServerSession.verifyAuth_cases P peer.sess l master with
    ⟨reason, hv⟩ | ⟨pending, -, plain, req, -, -, ⟨-, hv⟩ | ⟨-, hv⟩⟩
  · simp only [verifyReq, hv]
    refine ⟨⟨⟨_, AList.lookup_insert _, .refl peer⟩, hguard _ rfl⟩, fun _ _ => rfl⟩
  · exact absurd (by rw [hv]) (hauth _ _ _ _ _)
  · have hsid : (⟨peer.sess.phase, none, peer.sess.nextSessionId⟩ : ServerSession).sessionId.isSome
        = true := hsess
    simp only [verifyReq, hv, reject, hsid, if_true]
    split
    · refine ⟨⟨⟨_, AList.lookup_insert _, ?_⟩, hguard _ rfl⟩, fun _ _ => rfl⟩
      exact ⟨rfl, rfl, rfl, rfl, rfl, rfl, rfl⟩
    · refine ⟨⟨⟨_, AList.lookup_insert _, ?_⟩, hguard _ rfl⟩, fun _ _ => rfl⟩
      exact ⟨rfl, rfl, rfl, rfl, rfl, rfl, rfl⟩

theorem failedOpen_undisturbed (s : Server S) (mac : Mac) (l : Frame) (peer : Peer S)
    (hp : s.peers.lookup mac = some peer)
    (hopen : ∀ crypto, peer.crypto = some crypto → (openWith P crypto l).1 = none)
    (peer' : Peer S) (crypto : SessionCrypto) (hso : s.sessionOf mac l = some (peer', crypto)) :
    (openWith P crypto l).1 = none ∧ Undisturbed env mac peer s
      ((s.setPeer mac { peer' with crypto := some (openWith P crypto l).2 }).spendFail env mac) := by
  simp only [sessionOf, hp] at hso
  split at hso
  · exact absurd hso (by simp)
  obtain ⟨c, hc, heq⟩ := Option.map_eq_some_iff.mp hso
  obtain ⟨rfl, rfl⟩ := Prod.mk.inj heq
  have hnone := hopen c hc
  have hsame : (openWith P c l).2 = c := openSession_none P c _ _ _ _ _ hnone
  refine ⟨hnone, .of_guards env (AList.lookup_insert _) ?_ rfl⟩
  rw [hsame]
  exact ⟨rfl, hc.symm, rfl, rfl, rfl, rfl, rfl⟩

theorem onKeepalive_undisturbed (s : Server S) (mac : Mac) (l : Frame) (peer : Peer S)
    (hp : s.peers.lookup mac = some peer)
    (hopen : ∀ crypto, peer.crypto = some crypto → (openWith P crypto l).1 = none) :
    Undisturbed env mac peer s (s.onKeepalive P env mac l) := by
  simp only [onKeepalive]
  split
  next => exact .of_guards env hp (.refl peer) rfl
  next peer' crypto hso =>
    obtain ⟨hnone, hu⟩ := failedOpen_undisturbed P env s mac l peer hp hopen peer' crypto hso
    simp only [hnone]
    exact hu

theorem onData_undisturbed (s : Server S) (mac : Mac) (l : Frame) (peer : Peer S)
    (hp : s.peers.lookup mac = some peer)
    (hopen : ∀ crypto, peer.crypto = some crypto → (openWith P crypto l).1 = none) :
    Undisturbed env mac peer s (s.onData P ops env mac l) := by
  simp only [onData]
  split
  next => exact .of_guards env hp (.refl peer) rfl
  next peer' crypto hso =>
    obtain ⟨hnone, hu⟩ := failedOpen_undisturbed P env s mac l peer hp hopen peer' crypto hso
    simp only [hnone]
    exact hu

theorem onTeardown_undisturbed (s : Server S) (mac : Mac) (l : Frame) (peer : Peer S)
    (hp : s.peers.lookup mac = some peer)
    (hopen : ∀ crypto, peer.crypto = some crypto → (openWith P crypto l).1 = none) :
    Undisturbed env mac peer s (s.onTeardown P env mac l) := by
  simp only [onTeardown]
  split
  next => exact .of_guards env hp (.refl peer) rfl
  next peer' crypto hso =>
    obtain ⟨hnone, hu⟩ := failedOpen_undisturbed P env s mac l peer hp hopen peer' crypto hso
    simp only [hnone]
    exact hu

theorem onFrame_undisturbed (s : Server S) (mac : Mac) (ifindex : Int32) (raw : Bytes)
    (peer : Peer S) (hp : s.peers.lookup mac = some peer) (hsess : peer.sess.sessionId.isSome)
    (hauth : ∀ l, decode raw = .ok l → l.msgType = typeAuthReq →
      ∀ sid keys proof hkey user,
        (peer.sess.verifyAuth P l master).1 ≠ .accepted sid keys proof hkey user)
    (hopen : ∀ l crypto, decode raw = .ok l →
      l.msgType = typeKeepalive ∨ l.msgType = typeData ∨ l.msgType = typeTeardown →
      peer.crypto = some crypto → (openWith P crypto l).1 = none) :
    Undisturbed env mac peer s (s.onFrame P ops cfg master env mac ifindex raw) := by
  unfold onFrame
  split
  next =>
    simp only [onBadVersion]
    split
    · exact .of_guards env hp (.refl peer) rfl
    · exact .of_guards env hp (.refl peer) rfl
  next => exact .of_guards env hp (.refl peer) rfl
  next l hd =>
    split
    next => exact onDiscover_undisturbed P cfg master env s mac ifindex l peer hp
    split
    next ht =>
      exact (onAuthReq_undisturbed P ops master env s mac l peer hp hsess (hauth l hd ht)).1
    split
    next ht =>
      exact onKeepalive_undisturbed P env s mac l peer hp (fun c => hopen l c hd (.inl ht))
    split
    next ht =>
      exact onData_undisturbed P ops env s mac l peer hp (fun c => hopen l c hd (.inr (.inl ht)))
    split
    next ht =>
      exact onTeardown_undisturbed P env s mac l peer hp (fun c => hopen l c hd (.inr (.inr ht)))
    · exact .of_guards env hp (.refl peer) rfl

theorem onFrame_authReq (s : Server S) (mac : Mac) (ifindex : Int32) (raw : Bytes) (l : Frame)
    (hd : decode raw = .ok l) (ht : l.msgType = typeAuthReq) :
    s.onFrame P ops cfg master env mac ifindex raw = s.onAuthReq P ops master env mac l := by
  have hne : typeAuthReq ≠ typeDiscover := by decide
  simp only [onFrame, hd, ht, hne, if_false, if_true]

end Frames

end Server

end LandscapeKit.Flare
