import LandscapeKit.FlareRelayInv
import LandscapeKit.FlareServerMoves

/-!
What a turn of the server can do to the handshakes, the session keys and the frames on
the wire: a DISCOVER and an AUTH_REQ have one outcome each, every other event is a
sequence of session moves that leave the handshakes alone.
-/

namespace LandscapeKit.Flare

open Bytes Relation

structure HandPart where
  guards : Assoc Mac AuthGuard
  verdicts : List Verdict
  nonces : List UInt64

def CryptoRun (o o' : Option SessionCrypto) (ops : List SealOp) : Prop :=
  (o' = o ∧ ops = []) ∨ ∃ c c', o = some c ∧ o' = some c' ∧ SealedRun c c' ops

namespace Server

variable {S Sock : Type}

def hand (s : Server S) : HandPart := ⟨s.guards, s.verdicts, s.nonces⟩

theorem guards_of_hand {s s' : Server S} (h : s'.hand = s.hand) : s'.guards = s.guards :=
  congrArg HandPart.guards h

theorem verdicts_of_hand {s s' : Server S} (h : s'.hand = s.hand) : s'.verdicts = s.verdicts :=
  congrArg HandPart.verdicts h

theorem nonces_of_hand {s s' : Server S} (h : s'.hand = s.hand) : s'.nonces = s.nonces :=
  congrArg HandPart.nonces h

def sealed (s : Server S) : List SealOp := s.wire.filterMap OutFrame.op

theorem sealed_of_wire {s s' : Server S} {frames : List OutFrame} {ops : List SealOp}
    (hw : s'.wire = s.wire ++ frames) (hops : frames.map OutFrame.op = ops.map some) :
    s'.sealed = s.sealed ++ ops := by
  have hf : frames.filterMap OutFrame.op = ops := by
    calc frames.filterMap OutFrame.op = (frames.map OutFrame.op).filterMap id := by
          rw [List.filterMap_map, Function.id_comp]
      _ = (ops.map some).filterMap id := by rw [hops]
      _ = ops := by simp
  rw [sealed, hw, List.filterMap_append, hf]
  rfl

theorem send_sealed (s : Server S) (env : ServerEnv) (i : Int32) (m : Mac) (r : Bytes)
    (op : Option SealOp) : (s.send env i m r op).sealed = s.sealed ++ op.toList := by
  rw [sealed, send, List.filterMap_append]
  cases op with
  | none => rfl
  | some op => rfl

@[simp] theorem removePeer_verdicts (s : Server S) (mac : Mac) :
    (s.removePeer mac).verdicts = s.verdicts := by
  unfold removePeer
  split
  · rfl
  · rfl

@[simp] theorem removePeer_nonces (s : Server S) (mac : Mac) :
    (s.removePeer mac).nonces = s.nonces := by
  unfold removePeer
  split
  · rfl
  · rfl

@[simp] theorem removePeer_guards (s : Server S) (mac : Mac) :
    (s.removePeer mac).guards = s.guards := by
  unfold removePeer
  split
  · rfl
  · rfl

@[simp] theorem removePeer_sealed (s : Server S) (mac : Mac) :
    (s.removePeer mac).sealed = s.sealed := by
  unfold removePeer
  split
  · rfl
  · rfl

def SetAt (mac : Mac) (o : Option (Peer S)) (s s' : Server S) : Prop :=
  ∀ m, s'.peers.lookup m = if m = mac then o else s.peers.lookup m

namespace SetAt

theorem insert {mac : Mac} {p : Peer S} {s s' : Server S} (hp : s'.peers = s.peers.insert mac p) :
    SetAt mac (some p) s s' := by
  intro m
  rw [hp, Assoc.lookup_insert_eq]

theorem removePeer (s : Server S) (mac : Mac) : SetAt mac none s (s.removePeer mac) := by
  intro m
  unfold Server.removePeer
  split
  next hl =>
    split
    next hm => rw [hm, hl]
    next => rfl
  next p hl =>
    simp only [subBytes]
    rw [Assoc.lookup_erase_eq]

theorem trans {mac : Mac} {o₁ o₂ : Option (Peer S)} {s₁ s₂ s₃ : Server S} (h₁ : SetAt mac o₁ s₁ s₂)
    (h₂ : SetAt mac o₂ s₂ s₃) : SetAt mac o₂ s₁ s₃ := by
  intro m
  rw [h₂ m]
  split
  · rfl
  next hm => rw [h₁ m, if_neg hm]

end SetAt

/-- A move of the session phase: nothing sealed, one peer that seals with its session
crypto, or one peer that leaves. -/
inductive SessionMove (s s' : Server S) : Prop
  | idle (hp : s'.peers = s.peers) (hh : s'.hand = s.hand) (hw : s'.sealed = s.sealed)
  | sealing (mac : Mac) (p p' : Peer S) (ops : List SealOp) (hl : s.peers.lookup mac = some p)
      (hp : SetAt mac (some p') s s') (hsess : p'.sess = p.sess) (hh : s'.hand = s.hand)
      (hw : s'.sealed = s.sealed ++ ops) (hrun : CryptoRun p.crypto p'.crypto ops)
  | remove (mac : Mac) (hp : SetAt mac none s s') (hh : s'.hand = s.hand)
      (hw : s'.sealed = s.sealed)

def SessionMoves : Server S → Server S → Prop := ReflTransGen SessionMove

namespace SessionMoves

theorem refl (s : Server S) : SessionMoves s s := ReflTransGen.refl

theorem single {s s' : Server S} (h : SessionMove s s') : SessionMoves s s' := ReflTransGen.single h

theorem trans {s₁ s₂ s₃ : Server S} (h₁ : SessionMoves s₁ s₂) (h₂ : SessionMoves s₂ s₃) :
    SessionMoves s₁ s₃ :=
  ReflTransGen.trans h₁ h₂

theorem idle {s s' : Server S} (hp : s'.peers = s.peers) (hh : s'.hand = s.hand)
    (hw : s'.sealed = s.sealed) : SessionMoves s s' :=
  single (.idle hp hh hw)

theorem keep {s s' : Server S} {mac : Mac} {p p' : Peer S} (hl : s.peers.lookup mac = some p)
    (hp : s'.peers = s.peers.insert mac p') (hsess : p'.sess = p.sess)
    (hcrypto : p'.crypto = p.crypto) (hh : s'.hand = s.hand) (hw : s'.sealed = s.sealed) :
    SessionMoves s s' :=
  single (.sealing mac p p' [] hl (.insert hp) hsess hh (by rw [hw, List.append_nil])
    (Or.inl ⟨hcrypto, rfl⟩))

theorem removePeer (s : Server S) (mac : Mac) : SessionMoves s (s.removePeer mac) := by
  apply single
  refine .remove mac (SetAt.removePeer s mac) ?_ (removePeer_sealed s mac)
  rw [hand, removePeer_guards, removePeer_verdicts, removePeer_nonces]
  rfl

theorem preserves {I : Server S → Prop} (hI : ∀ s s', I s → SessionMove s s' → I s')
    {s s' : Server S} (hs : I s) (h : SessionMoves s s') : I s' := by
  induction h with
  | refl => exact hs
  | tail _ hmove ih => exact hI _ _ ih hmove

theorem hand_eq {s s' : Server S} (h : SessionMoves s s') : s'.hand = s.hand := by
  refine h.preserves (I := fun x => x.hand = s.hand) ?_ rfl
  intro s₁ s₂ h₁ hmove
  cases hmove with
  | idle hp hh hw => exact hh.trans h₁
  | sealing mac p p' ops hl hp hsess hh hw hrun => exact hh.trans h₁
  | remove mac hp hh hw => exact hh.trans h₁

theorem sess_eq {s s' : Server S} (h : SessionMoves s s') :
    ∀ m p', s'.peers.lookup m = some p' → ∃ p, s.peers.lookup m = some p ∧ p'.sess = p.sess := by
  refine h.preserves (I := fun x => ∀ m p', x.peers.lookup m = some p' →
    ∃ p, s.peers.lookup m = some p ∧ p'.sess = p.sess) ?_ (fun m p' hp' => ⟨p', hp', rfl⟩)
  intro s₁ s₂ h₁ hmove m p' hp'
  cases hmove with
  | idle hp hh hw => exact h₁ m p' (hp ▸ hp')
  | sealing mac p p₂ ops hl hp hsess hh hw hrun =>
    rw [hp m] at hp'
    split at hp'
    next hm =>
      obtain rfl := Option.some.inj hp'
      obtain ⟨p₀, hp₀, hs₀⟩ := h₁ mac p hl
      exact ⟨p₀, hm ▸ hp₀, hsess.trans hs₀⟩
    next => exact h₁ m p' hp'
  | remove mac hp hh hw =>
    rw [hp m] at hp'
    split at hp'
    · exact absurd hp' (by simp)
    · exact h₁ m p' hp'

end SessionMoves

section Sessions

variable (P : Primitives) (ops : StackOps S Sock) (cfg : ServerConfig) (master : MasterKey)
  (env : ServerEnv)

theorem pumpFlow_sealed (link : LinkEnv) (peer : Peer S) (nextConn : ConnId) (flow : Flow S Unit) :
    ∃ frames sealed, (pumpFlow P ops env link peer nextConn flow).flow.wire = flow.wire ++ frames ∧
      frames.map OutFrame.op = sealed.map some ∧
      SealedRun flow.crypto (pumpFlow P ops env link peer nextConn flow).flow.crypto sealed := by
  have haccept : ∀ (ls : List SocketHandle) (a : Accepting S),
      (ls.foldl (acceptOne ops) a).flow.wire = a.flow.wire ∧
      (ls.foldl (acceptOne ops) a).flow.crypto = a.flow.crypto := by
    intro ls
    induction ls with
    | nil => exact fun a => ⟨rfl, rfl⟩
    | cons l ls ih =>
      intro a
      have hone : (acceptOne ops a l).flow.wire = a.flow.wire ∧
          (acceptOne ops a l).flow.crypto = a.flow.crypto := by
        unfold acceptOne
        split
        · exact ⟨rfl, rfl⟩
        · exact ⟨rfl, rfl⟩
      exact ⟨(ih _).1.trans hone.1, (ih _).2.trans hone.2⟩
  obtain ⟨f₁, o₁, hw₁, hm₁, hr₁⟩ := (Flow.pollAndSend_keeps P ops link flow).sealed
  simp only [pumpFlow]
  split
  · exact ⟨f₁, o₁, hw₁, hm₁, hr₁⟩
  · obtain ⟨hwire, hcrypto⟩ := haccept peer.listeners
      ⟨flow.pollAndSend P ops link, [], peer.nextGeneration, nextConn, []⟩
    obtain ⟨f₂, o₂, hw₂, hm₂, hr₂⟩ := ((Flow.relayAll_keeps ops env.order
      (peer.listeners.foldl (acceptOne ops)
        ⟨flow.pollAndSend P ops link, [], peer.nextGeneration, nextConn, []⟩).flow).trans
      (Flow.pollAndSend_keeps P ops link _)).sealed
    refine ⟨f₁ ++ f₂, o₁ ++ o₂, ?_, ?_, ?_⟩
    · rw [hw₂, hwire, hw₁, List.append_assoc]
    · rw [List.map_append, List.map_append, hm₁, hm₂]
    · rw [hcrypto] at hr₂
      exact hr₁.trans hr₂

theorem pumpPeer_session (s : Server S) (mac : Mac) (sid : UInt32) :
    SessionMoves s (s.pumpPeer P ops env mac sid) := by
  rcases hl : s.peers.lookup mac with _ | peer
  · simp only [pumpPeer, hl]
    exact .refl s
  rcases hst : peer.stack with _ | stack
  · simp only [pumpPeer, hl, hst]
    exact .refl s
  rcases hcr : peer.crypto with _ | crypto
  · simp only [pumpPeer, hl, hst, hcr]
    exact .refl s
  simp only [pumpPeer, hl, hst, hcr]
  obtain ⟨frames, sealed, hw, hm, hr⟩ := pumpFlow_sealed P ops env (linkOf env mac peer sid) peer
    s.nextConn (startFlow s peer stack crypto)
  apply SessionMoves.single
  refine .sealing mac peer _ sealed hl (.insert rfl) rfl rfl (sealed_of_wire hw hm) ?_
  exact Or.inr ⟨crypto, _, hcr, rfl, hr⟩

theorem pumpSession_session (s : Server S) (mac : Mac) :
    SessionMoves s (s.pumpSession P ops env mac) :=
  pumpSession_induction P ops env (.refl s) mac fun sid => pumpPeer_session P ops env s mac sid

theorem pumpEach_session (macs : List Mac) (s : Server S) :
    SessionMoves s (s.pumpEach P ops env macs) :=
  pumpEach_induction P ops env (.refl s) macs fun s' mac h sid =>
    h.trans (pumpPeer_session P ops env s' mac sid)

theorem openWith_run (crypto : SessionCrypto) (l : Frame) :
    SealedRun crypto (openWith P crypto l).2 [] :=
  SealedRun.opened P crypto l.msgType l.sessionId l.seq l.len l.payload

theorem opened_session {s s' : Server S} {mac : Mac} {p p' : Peer S} {crypto : SessionCrypto}
    (l : Frame) (hl : s.peers.lookup mac = some p) (hc : p.crypto = some crypto)
    (hp : s'.peers = s.peers.insert mac p') (hsess : p'.sess = p.sess)
    (hc' : p'.crypto = some (openWith P crypto l).2) (hh : s'.hand = s.hand)
    (hw : s'.sealed = s.sealed) : SessionMoves s s' :=
  .single (.sealing mac p p' [] hl (.insert hp) hsess hh (by rw [hw, List.append_nil])
    (Or.inr ⟨crypto, _, hc, hc', openWith_run P crypto l⟩))

theorem onKeepalive_session (s : Server S) (mac : Mac) (l : Frame) :
    SessionMoves s (s.onKeepalive P env mac l) := by
  simp only [onKeepalive]
  split
  · exact .refl s
  next peer crypto hso =>
  obtain ⟨hl, hc, -⟩ := sessionOf_lookup hso
  split
  · exact opened_session P l hl hc rfl rfl rfl rfl rfl
  · apply SessionMoves.single
    refine .sealing mac peer _ [((openWith P crypto l).2.sealSession P typeKeepalive l.sessionId
      []).1.op] hl (.insert rfl) rfl rfl (send_sealed _ _ _ _ _ _) ?_
    refine Or.inr ⟨crypto, _, hc, rfl, ?_⟩
    exact (openWith_run P crypto l).trans (SealedRun.single P _ typeKeepalive l.sessionId [])

theorem onData_session (s : Server S) (mac : Mac) (l : Frame) :
    SessionMoves s (s.onData P ops env mac l) := by
  simp only [onData]
  split
  · exact .refl s
  next peer crypto hso =>
  obtain ⟨hl, hc, -⟩ := sessionOf_lookup hso
  split
  · exact opened_session P l hl hc rfl rfl rfl rfl rfl
  split
  · exact opened_session P l hl hc rfl rfl rfl rfl rfl
  · refine SessionMoves.trans ?_ (pumpPeer_session P ops env _ mac l.sessionId)
    exact opened_session P l hl hc rfl rfl rfl rfl rfl

theorem onTeardown_session (s : Server S) (mac : Mac) (l : Frame) :
    SessionMoves s (s.onTeardown P env mac l) := by
  simp only [onTeardown]
  split
  · exact .refl s
  next peer crypto hso =>
  obtain ⟨hl, hc, -⟩ := sessionOf_lookup hso
  split
  · exact opened_session P l hl hc rfl rfl rfl rfl rfl
  · refine SessionMoves.trans ?_ (SessionMoves.removePeer _ mac)
    exact opened_session P l hl hc rfl rfl rfl rfl rfl

theorem sendTeardown_session (s : Server S) (mac : Mac) :
    SessionMoves s (s.sendTeardown P env mac) := by
  simp only [sendTeardown]
  split
  · exact .refl s
  next peer hl =>
  split
  next sid crypto _ hc =>
    apply SessionMoves.single
    refine .sealing mac peer _ [(crypto.sealSession P typeTeardown sid []).1.op] hl (.insert rfl) rfl
      rfl (send_sealed _ _ _ _ _ _) ?_
    exact Or.inr ⟨crypto, _, hc, rfl, SealedRun.single P crypto typeTeardown sid []⟩
  · exact .refl s

theorem onSweep_session (s : Server S) : SessionMoves (s.retainFresh env) (s.onSweep P env) := by
  apply onSweep_induction P env (I := SessionMoves (s.retainFresh env)) (.refl _)
  exact fun s' mac h => (h.trans (sendTeardown_session P env s' mac)).trans (.removePeer _ mac)

theorem onShutdown_session (s : Server S) : SessionMoves s (s.onShutdown P env) := by
  apply onShutdown_induction P env (I := SessionMoves s) (.refl s)
  · exact fun s' mac h => h.trans (sendTeardown_session P env s' mac)
  · exact fun s' h => h.trans (.idle rfl rfl rfl)

theorem applyMsg_session (s : Server S) (mac : Mac) (h : SocketHandle) (peer : Peer S)
    (conn : ServerConn) (q : Queued) (hl : s.peers.lookup mac = some peer) :
    SessionMoves s (s.applyMsg ops mac h peer conn q) := by
  simp only [applyMsg]
  split
  · exact .keep hl rfl rfl rfl rfl rfl
  · split
    · exact .idle rfl rfl rfl
    split
    · exact .keep hl rfl rfl rfl rfl rfl
    · exact .keep hl rfl rfl rfl rfl rfl

theorem onToRx_session (s : Server S) : SessionMoves s (s.onToRx P ops env) := by
  unfold onToRx
  split
  · exact .refl s
  split
  · dsimp only
    split
    · exact .idle rfl rfl rfl
    next peer hl =>
    split
    · exact .idle rfl rfl rfl
    next conn hc =>
    split
    · refine SessionMoves.trans ?_ (pumpSession_session P ops env _ _)
      refine SessionMoves.trans ?_ (applyMsg_session ops _ _ _ peer conn _ ?_)
      · exact .idle rfl rfl rfl
      · exact hl
    · exact .idle rfl rfl rfl
  · exact .refl s

end Sessions

section Handshakes

variable (P : Primitives) (ops : StackOps S Sock) (cfg : ServerConfig) (master : MasterKey)
  (env : ServerEnv)

def GuardAt (mac : Mac) (g : AuthGuard) (s s' : Server S) : Prop :=
  ∀ m, s'.guards.lookup m = if m = mac then some g else s.guards.lookup m

theorem GuardAt.insert {mac : Mac} {g : AuthGuard} {s s' : Server S}
    (hg : s'.guards = s.guards.insert mac g) : GuardAt mac g s s' := by
  intro m
  rw [hg, Assoc.lookup_insert_eq]

theorem GuardAt.insert_insert {mac : Mac} {g g' : AuthGuard} {s s' : Server S}
    (hg : s'.guards = (s.guards.insert mac g').insert mac g) : GuardAt mac g s s' := by
  intro m
  rw [hg, Assoc.lookup_insert_eq, Assoc.lookup_insert_eq]
  split
  · rfl
  · rfl

def checkedGuard (s : Server S) (mac : Mac) : AuthGuard :=
  ((s.guardOf env mac).blocked env.now).2

def Passes (s : Server S) (mac : Mac) (p : Peer S) : Prop :=
  (s.guardOf env mac).locked env.now = true → p.sess.sessionId ≠ none

inductive DiscoverOutcome (mac : Mac) (l : Frame) (s s' : Server S) : Prop
  | ignored (hp : s'.peers = s.peers) (hh : s'.hand = s.hand) (hw : s'.sealed = s.sealed)
  | answered (id : UInt64) (name : String) (token : Option String)
      (hopen : openDiscover P l master = some (id, name, token)) (p p' : Peer S)
      (hp0 : p = (s.peers.lookup mac).getD (newPeer env.now)) (hp : SetAt mac (some p') s s')
      (hsess : p'.sess =
        { p.sess with pending := some (p.sess.pendingFor id env.serverNonce) })
      (hcrypto : p'.crypto = p.crypto) (hv : s'.verdicts = s.verdicts)
      (hg : s'.guards = s.guards)
      (hn : s'.nonces = if startsNewAttempt p.sess.pendingDiscoverId id
        then s.nonces ++ [env.serverNonce] else s.nonces)
      (hw : s'.sealed = s.sealed ++ [(ServerSession.respFrame P master cfg.deviceName
        cfg.forwardPorts (p.sess.pendingFor id env.serverNonce)).op])

inductive AuthOutcome (mac : Mac) (l : Frame) (s s' : Server S) : Prop
  | ignored (hp : s'.peers = s.peers) (hh : s'.hand = s.hand) (hw : s'.sealed = s.sealed)
  | refused (p p' : Peer S) (reason : String) (hl : s.peers.lookup mac = some p)
      (hlocked : (s.guardOf env mac).locked env.now = true) (hno : p.sess.sessionId = none)
      (hp : SetAt mac (some p') s s') (hsess : p'.sess = { p.sess with pending := none })
      (hcrypto : p'.crypto = p.crypto) (hv : s'.verdicts = s.verdicts)
      (hn : s'.nonces = s.nonces) (hg : GuardAt mac (s.checkedGuard env mac) s s')
      (hw : s'.sealed = s.sealed ++ (p.sess.pending.map (fun pd =>
        ((HandshakeKeys.derive P master pd.serverNonce).sealFrame P .s2c typeAuthNack 0
          hsAuthNack (encodeAuthNackPayload reason)).op)).toList)
  | unauthentic (p p' : Peer S) (reason : String) (hl : s.peers.lookup mac = some p)
      (hpass : s.Passes env mac p)
      (hres : p.sess.verifyAuth P l master = (.unauthentic reason, p.sess))
      (hp : SetAt mac (some p') s s') (hsess : p'.sess = p.sess) (hcrypto : p'.crypto = p.crypto)
      (hv : s'.verdicts = s.verdicts ++ [⟨env.now, mac, l, p.sess.pending, .unauthentic reason⟩])
      (hn : s'.nonces = s.nonces) (hg : GuardAt mac (s.checkedGuard env mac) s s')
      (hw : s'.sealed = s.sealed)
  | accepted (p p' : Peer S) (sid : UInt32) (keys : SessionKeys)
      (proof : Digest) (hkey : HandshakeKeys) (user : String) (hl : s.peers.lookup mac = some p)
      (hpass : s.Passes env mac p)
      (hres : (p.sess.verifyAuth P l master).1 = .accepted sid keys proof hkey user)
      (hp : SetAt mac (some p') s s') (hsess : p'.sess = (p.sess.verifyAuth P l master).2)
      (hcrypto : p'.crypto = some (SessionCrypto.new keys .s2c))
      (hv : s'.verdicts = s.verdicts ++
        [⟨env.now, mac, l, p.sess.pending, .accepted sid keys proof hkey user⟩])
      (hn : s'.nonces = s.nonces)
      (hg : GuardAt mac ((s.checkedGuard env mac).recordSuccess env.now) s s')
      (hw : s'.sealed = s.sealed ++
        [(hkey.sealFrame P .s2c typeAuthAck sid hsAuthAck (encodeAuthAckPayload proof)).op])
  | rejected (p : Peer S) (o : Option (Peer S)) (g : AuthGuard) (reason : String)
      (hkey : HandshakeKeys) (hl : s.peers.lookup mac = some p)
      (hpass : s.Passes env mac p)
      (hres : (p.sess.verifyAuth P l master).1 = .rejected reason hkey)
      (hp : SetAt mac o s s')
      (ho : ∀ p', o = some p' → p'.sess = (p.sess.verifyAuth P l master).2 ∧
        p'.crypto = p.crypto)
      (hv : s'.verdicts = s.verdicts ++ [⟨env.now, mac, l, p.sess.pending, .rejected reason hkey⟩])
      (hn : s'.nonces = s.nonces) (hg : GuardAt mac g s s')
      (hgc : g = s.checkedGuard env mac ∨
        (g = (s.checkedGuard env mac).recordFailure env.now ∧
          (p.sess.verifyAuth P l master).2.sessionId = none ∧ o = none))
      (hw : s'.sealed = s.sealed ++
        [(hkey.sealFrame P .s2c typeAuthNack 0 hsAuthNack (encodeAuthNackPayload reason)).op])

theorem onDiscover_outcome (s : Server S) (mac : Mac) (ifindex : Int32) (l : Frame) :
    DiscoverOutcome P cfg master env mac l s (s.onDiscover P cfg master env mac ifindex l) := by
  simp only [onDiscover]
  split
  · exact .ignored rfl rfl rfl
  split
  · exact .ignored rfl rfl rfl
  split
  · exact .ignored rfl rfl rfl
  next id name token hopen =>
  split
  · exact .ignored rfl rfl rfl
  split
  · exact .ignored rfl rfl rfl
  · refine .answered id name token hopen _ _ rfl (.insert rfl) rfl rfl rfl rfl rfl ?_
    exact send_sealed _ _ _ _ _ _

theorem refuseLocked_outcome {s s₁ : Server S} (mac : Mac) (l : Frame) (peer : Peer S)
    (i : Int32) (hl : s.peers.lookup mac = some peer)
    (hlocked : (s.guardOf env mac).locked env.now = true) (hno : peer.sess.sessionId = none)
    (hp : s₁.peers = s.peers) (hw : s₁.sealed = s.sealed) (hv : s₁.verdicts = s.verdicts)
    (hn : s₁.nonces = s.nonces)
    (hg : s₁.guards = s.guards.insert mac (s.checkedGuard env mac)) :
    AuthOutcome P master env mac l s
      (s₁.refuseLocked P master env mac peer (s.checkedGuard env mac) i) := by
  have hrem : ∃ rem, (s.checkedGuard env mac).remaining env.now = some rem := by
    unfold AuthGuard.locked at hlocked
    split at hlocked
    next t ht => exact ⟨t - env.now, by simp [checkedGuard, AuthGuard.remaining, AuthGuard.blocked, ht]⟩
    next => exact absurd hlocked (by simp)
  obtain ⟨rem, hrem⟩ := hrem
  simp only [refuseLocked, hrem]
  split
  next sNonce htaken =>
    obtain ⟨pd, hpd, rfl⟩ := Option.map_eq_some_iff.mp htaken
    refine .refused peer { peer with sess := peer.sess.takeServerNonce.2 } (lockoutReason rem) hl
      hlocked hno (.insert (congrArg (AList.insert mac _) hp)) rfl rfl hv hn (.insert hg) ?_
    rw [send_sealed, hpd, Option.map_some, ← hw]
    rfl
  next htaken =>
    have hpd : peer.sess.pending = none := Option.map_eq_none_iff.mp htaken
    refine .refused peer { peer with sess := peer.sess.takeServerNonce.2 } (lockoutReason rem) hl
      hlocked hno (.insert (congrArg (AList.insert mac _) hp)) rfl rfl hv hn (.insert hg) ?_
    rw [send_sealed, hpd, Option.map_none, ← hw]
    rfl

theorem reject_outcome {s s₁ : Server S} (mac : Mac) (l : Frame) (peer peer' : Peer S) (i : Int32)
    (reason : String) (hkey : HandshakeKeys) (hl : s.peers.lookup mac = some peer)
    (hpass : s.Passes env mac peer)
    (hres : (peer.sess.verifyAuth P l master).1 = .rejected reason hkey)
    (hsess : peer'.sess = (peer.sess.verifyAuth P l master).2)
    (hcrypto : peer'.crypto = peer.crypto) (hp : s₁.peers = s.peers)
    (hw : s₁.sealed = s.sealed)
    (hv : s₁.verdicts = s.verdicts ++
      [⟨env.now, mac, l, peer.sess.pending, .rejected reason hkey⟩])
    (hn : s₁.nonces = s.nonces)
    (hg : s₁.guards = s.guards.insert mac (s.checkedGuard env mac)) :
    AuthOutcome P master env mac l s (s₁.reject P env mac peer' i reason hkey) := by
  have hset : ∀ s' : Server S, s'.peers = s₁.peers.insert mac peer' →
      SetAt mac (some peer') s s' := fun s' h => .insert (by rw [h, hp])
  have hkept : ∀ p', some peer' = some p' →
      p'.sess = (peer.sess.verifyAuth P l master).2 ∧ p'.crypto = peer.crypto := by
    intro p' h
    obtain rfl := Option.some.inj h
    exact ⟨hsess, hcrypto⟩
  have hsealed : ((s₁.setPeer mac peer').sendOrStop env i mac
      (hkey.sealFrame P .s2c typeAuthNack 0 hsAuthNack (encodeAuthNackPayload reason)).raw
      (some (hkey.sealFrame P .s2c typeAuthNack 0 hsAuthNack
        (encodeAuthNackPayload reason)).op)).sealed = s.sealed ++
      [(hkey.sealFrame P .s2c typeAuthNack 0 hsAuthNack (encodeAuthNackPayload reason)).op] := by
    rw [← hw]
    exact send_sealed _ _ _ _ _ _
  simp only [reject]
  split
  · exact .rejected peer (some peer') _ reason hkey hl hpass hres (hset _ rfl) hkept hv hn
      (.insert hg) (Or.inl rfl) hsealed
  split
  · exact .rejected peer (some peer') _ reason hkey hl hpass hres (hset _ rfl) hkept hv hn
      (.insert hg) (Or.inl rfl) hsealed
  next hno =>
    have hsid : (peer.sess.verifyAuth P l master).2.sessionId = none := by
      rw [← hsess]
      simpa using hno
    have hguard : s₁.guardOf env mac = s.checkedGuard env mac := by
      rw [guardOf, hg, AList.lookup_insert, Option.getD_some]
    -- The peer goes in every case; whether the failure counts is up to the budget.
    have hgone : ∀ s' : Server S, s'.peers = s₁.peers.insert mac peer' →
        SetAt mac none s (s'.removePeer mac) :=
      fun s' h => (hset s' h).trans (SetAt.removePeer s' mac)
    simp only [countFailure]
    split
    · refine .rejected peer none _ reason hkey hl hpass hres (hgone _ rfl) (by simp) ?_ ?_ ?_
        (Or.inr ⟨rfl, hsid, rfl⟩) ?_
      · rw [removePeer_verdicts]
        exact hv
      · rw [removePeer_nonces]
        exact hn
      · apply GuardAt.insert_insert
        rw [removePeer_guards, ← hg, ← hguard]
        rfl
      · rw [removePeer_sealed]
        exact hsealed
    · refine .rejected peer none _ reason hkey hl hpass hres (hgone _ rfl) (by simp) ?_ ?_ ?_
        (Or.inl rfl) ?_
      · rw [removePeer_verdicts]
        exact hv
      · rw [removePeer_nonces]
        exact hn
      · apply GuardAt.insert
        rw [removePeer_guards]
        exact hg
      · rw [removePeer_sealed]
        exact hsealed

theorem verifyReq_outcome {s s₁ : Server S} (mac : Mac) (l : Frame) (peer : Peer S)
    (hl : s.peers.lookup mac = some peer) (hpass : s.Passes env mac peer)
    (hp : s₁.peers = s.peers) (hw : s₁.sealed = s.sealed) (hv : s₁.verdicts = s.verdicts)
    (hn : s₁.nonces = s.nonces)
    (hg : s₁.guards = s.guards.insert mac (s.checkedGuard env mac)) :
    AuthOutcome P master env mac l s (s₁.verifyReq P ops master env mac peer l) := by
  have hlog : ∀ r : VerifyResult, s₁.verdicts ++ [(⟨env.now, mac, l, peer.sess.pending, r⟩ : Verdict)] =
      s.verdicts ++ [⟨env.now, mac, l, peer.sess.pending, r⟩] := fun r => by rw [hv]
  have hguard : s₁.guardOf env mac = s.checkedGuard env mac := by
    rw [guardOf, hg, AList.lookup_insert, Option.getD_some]
  simp only [verifyReq]
  split
  next sid keys proof hkey user hres =>
    refine .accepted peer { teardownPeer { peer with sess := (peer.sess.verifyAuth P l master).2 } with
        stack := some (freshStack ops env).1
        pollAt := some env.now
        listeners := (freshStack ops env).2
        crypto := some (SessionCrypto.new keys .s2c)
        ifindex := replyIfindexOf peer
        lastSeen := env.now } sid keys proof hkey user hl hpass hres
      (.insert (congrArg (AList.insert mac _) hp)) rfl rfl ?_ hn ?_ ?_
    · rw [← hlog, ← hres]
      rfl
    · apply GuardAt.insert_insert
      rw [← hg, ← hguard]
      rfl
    · rw [← hw]
      exact send_sealed _ _ _ _ _ _
  next reason hkey hres =>
    apply reject_outcome P master env mac l peer _ _ reason hkey hl hpass hres
    · rfl
    · rfl
    · exact hp
    · exact hw
    · rw [← hlog, ← hres]
    · exact hn
    · exact hg
  next reason hres =>
    have hsame : peer.sess.verifyAuth P l master = (.unauthentic reason, peer.sess) := by
      rcases peer.sess.verifyAuth_cases P l master with ⟨r, hr⟩ | ⟨_, _, _, _, _, _, ⟨_, hr⟩ | ⟨_, hr⟩⟩
      · rw [hr] at hres ⊢
        exact congrArg (·, peer.sess) hres
      · rw [hr] at hres
        exact absurd hres (by simp)
      · rw [hr] at hres
        exact absurd hres (by simp)
    refine .unauthentic peer { peer with sess := (peer.sess.verifyAuth P l master).2 } reason hl
      hpass hsame (.insert (congrArg (AList.insert mac _) hp)) ?_ rfl ?_ hn (.insert hg) hw
    · rw [hsame]
    · rw [← hlog, ← hres]
      rfl

theorem onAuthReq_outcome (s : Server S) (mac : Mac) (l : Frame) :
    AuthOutcome P master env mac l s (s.onAuthReq P ops master env mac l) := by
  simp only [onAuthReq]
  split
  · exact .ignored rfl rfl rfl
  split
  · exact .ignored rfl rfl rfl
  next peer hl =>
  split
  · exact .ignored rfl rfl rfl
  split
  next hblocked =>
    rw [Bool.and_eq_true] at hblocked
    apply refuseLocked_outcome P master env mac l peer
    · exact hl
    · exact hblocked.1
    · simpa using hblocked.2
    · rfl
    · rfl
    · rfl
    · rfl
    · rfl
  next hblocked =>
    apply verifyReq_outcome P ops master env mac l peer
    · exact hl
    · intro hlocked hno
      apply hblocked
      rw [Bool.and_eq_true]
      exact ⟨hlocked, by rw [hno]; rfl⟩
    · rfl
    · rfl
    · rfl
    · rfl
    · rfl

inductive StepOutcome (s s' : Server S) : Event → Prop
  | discover (mac : Mac) (ifindex : Int32) (raw : Bytes) (l : Frame) (hd : decode raw = .ok l)
      (h : DiscoverOutcome P cfg master env mac l s s') : StepOutcome s s' (.frame mac ifindex raw)
  | authReq (mac : Mac) (ifindex : Int32) (raw : Bytes) (l : Frame) (hd : decode raw = .ok l)
      (h : AuthOutcome P master env mac l s s') : StepOutcome s s' (.frame mac ifindex raw)
  | sweep (hrun : s.running = true) (h : SessionMoves (s.retainFresh env) s') :
      StepOutcome s s' .sweep
  | session (e : Event) (h : SessionMoves s s') : StepOutcome s s' e

theorem onFrame_outcome (s : Server S) (mac : Mac) (ifindex : Int32) (raw : Bytes) :
    StepOutcome P cfg master env s (s.onFrame P ops cfg master env mac ifindex raw)
      (.frame mac ifindex raw) := by
  unfold onFrame
  split
  · apply StepOutcome.session
    simp only [onBadVersion]
    split
    · refine .idle rfl rfl ?_
      rw [send_sealed]
      exact List.append_nil _
    · exact .idle rfl rfl rfl
  · exact .session _ (.refl s)
  next l hd =>
  split
  · exact .discover mac ifindex raw l hd (onDiscover_outcome P cfg master env s mac ifindex l)
  split
  · exact .authReq mac ifindex raw l hd (onAuthReq_outcome P ops master env s mac l)
  split
  · exact .session _ (onKeepalive_session P env s mac l)
  split
  · exact .session _ (onData_session P ops env s mac l)
  split
  · exact .session _ (onTeardown_session P env s mac l)
  · exact .session _ (.refl s)

theorem notify_session (s : Server S) (key : ServerConnKey) :
    (s.notify key).peers = s.peers ∧ (s.notify key).hand = s.hand ∧
      (s.notify key).sealed = s.sealed := by
  unfold notify
  split
  · exact ⟨rfl, rfl, rfl⟩
  · exact ⟨rfl, rfl, rfl⟩

theorem recvFrom_session (s : Server S) (id : ConnId) (key : ServerConnKey) :
    (s.recvFrom id key).2.peers = s.peers ∧ (s.recvFrom id key).2.hand = s.hand ∧
      (s.recvFrom id key).2.sealed = s.sealed := by
  unfold recvFrom
  split
  · exact notify_session _ key
  · split
    · exact ⟨rfl, rfl, rfl⟩
    · exact ⟨rfl, rfl, rfl⟩

theorem taskStep_session (s : Server S) (id : ConnId) (t : ConnTask) (act : TaskAct) :
    (s.taskStep cfg id t act).peers = s.peers ∧ (s.taskStep cfg id t act).hand = s.hand ∧
      (s.taskStep cfg id t act).sealed = s.sealed := by
  have hrecv := recvFrom_session s id t.key
  have hdrop : ∀ s' : Server S, s'.peers = s.peers ∧ s'.hand = s.hand ∧ s'.sealed = s.sealed →
      (s'.dropReceiver id t.key).peers = s.peers ∧ (s'.dropReceiver id t.key).hand = s.hand ∧
        (s'.dropReceiver id t.key).sealed = s.sealed := by
    intro s' h
    obtain ⟨h1, h2, h3⟩ := notify_session
      { s' with chans := Function.update s'.chans id { s'.chans id with closed := true } } t.key
    exact ⟨h1.trans h.1, h2.trans h.2.1, h3.trans h.2.2⟩
  unfold taskStep
  split
  · dsimp only
    split
    · exact ⟨rfl, rfl, rfl⟩
    · exact hrecv
    · exact hrecv
  · split
    · exact ⟨rfl, rfl, rfl⟩
    · exact ⟨rfl, rfl, rfl⟩
  · exact ⟨rfl, rfl, rfl⟩
  · split
    · exact ⟨rfl, rfl, rfl⟩
    · exact ⟨rfl, rfl, rfl⟩
  · split
    · dsimp only
      split
      · exact ⟨rfl, rfl, rfl⟩
      · exact hrecv
      · exact hrecv
    · exact ⟨rfl, rfl, rfl⟩
  · split
    · split
      · exact ⟨rfl, rfl, rfl⟩
      · exact hdrop _ ⟨rfl, rfl, rfl⟩
    · split
      · exact hdrop _ ⟨rfl, rfl, rfl⟩
      · exact hdrop _ ⟨rfl, rfl, rfl⟩
    · exact ⟨rfl, rfl, rfl⟩
  · split
    · exact ⟨rfl, rfl, rfl⟩
    · exact ⟨rfl, rfl, rfl⟩
  · split
    · dsimp only
      split
      · exact ⟨rfl, rfl, rfl⟩
      · exact hdrop _ ⟨rfl, rfl, rfl⟩
    · exact ⟨rfl, rfl, rfl⟩
  · exact ⟨rfl, rfl, rfl⟩

theorem step_outcome (s : Server S) (e : Event) :
    StepOutcome P cfg master env s (s.step P ops cfg master env e) e := by
  cases e with
  | frame mac ifindex raw =>
    simp only [step]
    split
    · exact onFrame_outcome P ops cfg master env s mac ifindex raw
    · exact .session _ (.refl s)
  | recvFailed => exact .session _ (.idle rfl rfl rfl)
  | toRx =>
    apply StepOutcome.session
    simp only [step]
    split
    · exact onToRx_session P ops env s
    · exact .refl s
  | wake =>
    apply StepOutcome.session
    simp only [step]
    split
    · refine SessionMoves.trans ?_ (pumpEach_session P ops env _ _)
      exact .idle rfl rfl rfl
    · exact .refl s
  | poll =>
    apply StepOutcome.session
    simp only [step]
    split
    · exact pumpEach_session P ops env _ s
    · exact .refl s
  | sweep =>
    simp only [step]
    split
    next hrun => exact .sweep hrun (onSweep_session P env s)
    · exact .session _ (.refl s)
  | shutdown =>
    apply StepOutcome.session
    simp only [step]
    split
    · exact onShutdown_session P env s
    · exact .refl s
  | task id act =>
    apply StepOutcome.session
    simp only [step]
    split
    · exact .refl s
    next t _ =>
      obtain ⟨h1, h2, h3⟩ := taskStep_session cfg s id t act
      exact .idle h1 h2 h3

end Handshakes

end Server

end LandscapeKit.Flare
