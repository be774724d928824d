import LandscapeKit.FlareRelay
import LandscapeKit.FlareSession
import LandscapeKit.FlareGuard

/-!
The flare server (`flare/server.rs`): the peer table, the event loop of `run` with
one handler for each frame type, `pump_peer`, and the connection tasks that run
beside it.
-/

namespace LandscapeKit.Flare

open Bytes

def listenerPoolSize : ℕ := 64
def maxPeers : ℕ := 4096
def toTxCapacity : ℕ := 512
def readBufferLen : ℕ := 8192

abbrev ServerConnKey := Mac × SocketHandle × UInt64
abbrev ServerConn := Conn Unit

structure ServerConfig where
  deviceName : String
  forwardPorts : List UInt16
  discoverToken : String

structure Peer (S : Type) where
  sess : ServerSession
  ifindex : Int32
  handshakeIfindex : Int32
  stack : Option S
  pollAt : Option Instant
  listeners : List SocketHandle
  crypto : Option SessionCrypto
  conns : Assoc SocketHandle ServerConn
  pendingTx : Assoc SocketHandle (List Bytes)
  nextGeneration : UInt64
  lastSeen : Instant

def newPeer {S : Type} (now : Instant) : Peer S where
  sess := .new
  ifindex := 0
  handshakeIfindex := 0
  stack := none
  pollAt := none
  listeners := []
  crypto := none
  conns := ∅
  pendingTx := ∅
  nextGeneration := 1
  lastSeen := now

/-- The writing half of a connection task (`relay_remote_writer`). -/
inductive Writer
  | waiting
  | writing (bytes : Bytes)
  | shuttingDown
  | finished
deriving DecidableEq

/-- Where `server_conn_task` stands. `sending` and `closing` wait for room in the
channel to the event loop. -/
inductive TaskPhase
  | header (got : Bytes)
  | dialing (dst : UInt16) (extra : Bytes)
  | relaying
  | sending (bytes : Bytes)
  | closing
  | done
deriving DecidableEq

structure ConnTask where
  key : ServerConnKey
  phase : TaskPhase
  writer : Writer
deriving DecidableEq

/-- A message in the shared channel; `origin` is the connection whose task sent it. -/
structure Queued where
  key : ServerConnKey
  msg : StackMsg
  origin : ConnId
deriving DecidableEq

/-- An AUTH_REQ that was verified, with the verdict. -/
structure Verdict where
  time : Instant
  mac : Mac
  frame : Frame
  pending : Option PendingHandshake
  result : VerifyResult

/-- The state of `run` and of the tasks it spawned. `wire`, `applied`, `verdicts` and
`nonces` record what was sent, which task message reached which connection, what was
verified and which server nonces were drawn. -/
structure Server (S : Type) where
  peers : Assoc Mac (Peer S)
  rate : Assoc Mac RateBucket
  failRate : Assoc Mac RateBucket
  guards : Assoc Mac AuthGuard
  globalRate : RateBucket
  authFailTs : List Instant
  pendingTxBytes : ℕ
  saturated : Bool
  toRx : List Queued
  wake : List ServerConnKey
  chans : ConnId → Chan
  tasks : ConnId → Option ConnTask
  nextConn : ConnId
  running : Bool
  wire : List OutFrame
  applied : List (ConnId × ConnId)
  verdicts : List Verdict
  nonces : List UInt64

def Server.init {S : Type} (now : Instant) : Server S where
  peers := ∅
  rate := ∅
  failRate := ∅
  guards := ∅
  globalRate := .new globalRatePerSec now
  authFailTs := []
  pendingTxBytes := 0
  saturated := false
  toRx := []
  wake := []
  chans := fun _ => .empty
  tasks := fun _ => none
  nextConn := 0
  running := true
  wire := []
  applied := []
  verdicts := []
  nonces := []

/-- What one turn of the loop meets: the clock, the outcome of each send, the order
in which the hash maps are walked, and the random values it may draw. -/
structure ServerEnv where
  now : Instant
  sendOk : ℕ → Bool
  order : List SocketHandle → List SocketHandle
  macOrder : List Mac → List Mac
  serverNonce : UInt64
  seed : UInt64
  order_perm : ∀ l, (order l).Perm l
  macOrder_perm : ∀ l, (macOrder l).Perm l

/-- Drop the peer's stack, crypto, connections and queues; the queued bytes leave the
counter. -/
def teardownPeer {S : Type} (peer : Peer S) : Peer S :=
  { peer with
    stack := none, pollAt := none, listeners := [], crypto := none, conns := ∅, pendingTx := ∅ }

namespace Server

variable {S Sock : Type}

def subBytes (s : Server S) (n : ℕ) : Server S :=
  { s with
    pendingTxBytes := s.pendingTxBytes - n
    saturated := s.saturated || decide (s.pendingTxBytes < n) }

/-- `let _ = tx.send_on(..)`. -/
def send (s : Server S) (env : ServerEnv) (ifindex : Int32) (mac : Mac) (raw : Bytes)
    (op : Option SealOp) : Server S :=
  { s with wire := s.wire ++ [⟨ifindex, mac, raw, op, env.sendOk s.wire.length⟩] }

/-- `tx.send_on(..)?`: a failing send ends `run`. -/
def sendOrStop (s : Server S) (env : ServerEnv) (ifindex : Int32) (mac : Mac) (raw : Bytes)
    (op : Option SealOp) : Server S :=
  { s.send env ifindex mac raw op with running := env.sendOk s.wire.length }

def setPeer (s : Server S) (mac : Mac) (peer : Peer S) : Server S :=
  { s with peers := s.peers.insert mac peer }

def removePeer (s : Server S) (mac : Mac) : Server S :=
  match s.peers.lookup mac with
  | none => s
  | some peer =>
    { s with peers := s.peers.erase mac } |>.subBytes (peer.pendingTx.sumBy queueBytes)

section Pump

variable (P : Primitives) (ops : StackOps S Sock) (env : ServerEnv)

/-- The accept loop over the listener pool. -/
structure Accepting (S : Type) where
  flow : Flow S Unit
  listeners : List SocketHandle
  nextGeneration : UInt64
  nextConn : ConnId
  spawned : List (ConnId × SocketHandle × UInt64)

def acceptOne (a : Accepting S) (listener : SocketHandle) : Accepting S :=
  match ops.accept a.flow.stack listener internalPort with
  | (stack, none) =>
    { a with flow := { a.flow with stack }, listeners := a.listeners ++ [listener] }
  | (stack, some (h, newListener)) =>
    { flow := { a.flow with
        stack
        conns := a.flow.conns.insert h ⟨a.nextConn, a.nextGeneration, false, false, ()⟩
        chans := Function.update a.flow.chans a.nextConn .empty }
      listeners := a.listeners ++ [newListener]
      nextGeneration := max (a.nextGeneration + 1) 1
      nextConn := a.nextConn + 1
      spawned := a.spawned ++ [(a.nextConn, h, a.nextGeneration)] }

def startFlow (s : Server S) (peer : Peer S) (stack : S) (crypto : SessionCrypto) :
    Flow S Unit where
  stack := stack
  crypto := crypto
  conns := peer.conns
  pendingTx := peer.pendingTx
  pendingTxBytes := s.pendingTxBytes
  saturated := s.saturated
  chans := s.chans
  wire := s.wire
  failed := false

def linkOf (mac : Mac) (peer : Peer S) (sid : UInt32) : LinkEnv :=
  ⟨env.now, peer.ifindex, mac, sid, env.sendOk⟩

/-- `pump_peer` between its two early returns: poll and send, accept, relay, poll
and send. -/
def pumpFlow (link : LinkEnv) (peer : Peer S) (nextConn : ConnId) (flow : Flow S Unit) :
    Accepting S :=
  let flow := flow.pollAndSend P ops link
  let a : Accepting S := ⟨flow, [], peer.nextGeneration, nextConn, []⟩
  if flow.failed then { a with listeners := peer.listeners }
  else
    let a := peer.listeners.foldl (acceptOne ops) a
    { a with flow := (a.flow.relayAll ops env.order).pollAndSend P ops link }

def spawnTasks (tasks : ConnId → Option ConnTask) (mac : Mac)
    (spawned : List (ConnId × SocketHandle × UInt64)) : ConnId → Option ConnTask :=
  spawned.foldl (fun ts x =>
    Function.update ts x.1 (some ⟨(mac, x.2.1, x.2.2), .header [], .waiting⟩)) tasks

def finishPump (s : Server S) (mac : Mac) (peer : Peer S) (a : Accepting S) : Server S :=
  let delay := ops.pollDelay env.now a.flow.stack
  let peer' : Peer S := { peer with
    stack := some (if a.flow.failed then a.flow.stack else delay.1)
    pollAt := if a.flow.failed then peer.pollAt else delay.2.map (env.now + ·)
    listeners := a.listeners
    crypto := some a.flow.crypto
    conns := a.flow.conns
    pendingTx := a.flow.pendingTx
    nextGeneration := a.nextGeneration }
  { s with
    peers := s.peers.insert mac peer'
    pendingTxBytes := a.flow.pendingTxBytes
    saturated := a.flow.saturated
    chans := a.flow.chans
    tasks := spawnTasks s.tasks mac a.spawned
    nextConn := a.nextConn
    wire := a.flow.wire
    running := !a.flow.failed }

def pumpPeer (s : Server S) (mac : Mac) (sid : UInt32) : Server S :=
  match s.peers.lookup mac with
  | none => s
  | some peer =>
    match peer.stack, peer.crypto with
    | some stack, some crypto =>
      finishPump ops env s mac peer
        (pumpFlow P ops env (linkOf env mac peer sid) peer s.nextConn
          (startFlow s peer stack crypto))
    | _, _ => s

/-- Pump a peer that has a session; the loops over several peers stop at a failed
send. -/
def pumpSession (s : Server S) (mac : Mac) : Server S :=
  match s.peers.lookup mac with
  | none => s
  | some peer =>
    match peer.sess.sessionId with
    | none => s
    | some sid => pumpPeer P ops env s mac sid

def pumpEach (s : Server S) (macs : List Mac) : Server S :=
  macs.foldl (fun s mac => if s.running then pumpSession P ops env s mac else s) s

end Pump

section Frames

variable (P : Primitives) (ops : StackOps S Sock) (cfg : ServerConfig) (master : MasterKey)
  (env : ServerEnv)

def startsNewAttempt (pendingDiscoverId : Option UInt64) (discoverId : UInt64) : Bool :=
  pendingDiscoverId != some discoverId

def spendGlobal (s : Server S) : Bool × Server S :=
  let spent := s.globalRate.allow env.now
  (spent.1, { s with globalRate := spent.2 })

def spendRate (s : Server S) (mac : Mac) : Bool × Server S :=
  let spent := RateBucket.rateAllow s.rate mac env.now
  (spent.1, { s with rate := spent.2 })

/-- A failed open of a session frame; the frame is dropped either way. -/
def spendFail (s : Server S) (mac : Mac) : Server S :=
  { s with failRate := (RateBucket.failAllow s.failRate mac env.now).2 }

/-- The answer to an opened DISCOVER: the peer is created when it is new, and keeps
one reply interface for the whole attempt. -/
def answerDiscover (s : Server S) (mac : Mac) (ifindex : Int32) (discoverId : UInt64) : Server S :=
  let peer := (s.peers.lookup mac).getD (newPeer env.now)
  let fresh := startsNewAttempt peer.sess.pendingDiscoverId discoverId
  let replyIfindex := if fresh then ifindex else peer.handshakeIfindex
  let resp := peer.sess.beginDiscover P discoverId cfg.deviceName cfg.forwardPorts master
    env.serverNonce
  let s := s.setPeer mac { peer with handshakeIfindex := replyIfindex, sess := resp.2 }
  let s := { s with nonces := if fresh then s.nonces ++ [env.serverNonce] else s.nonces }
  s.sendOrStop env replyIfindex mac resp.1.raw (some resp.1.op)

def onDiscover (s : Server S) (mac : Mac) (ifindex : Int32) (l : Frame) : Server S :=
  let spent := s.spendGlobal env
  if !spent.1 then spent.2
  else
    let spent := spent.2.spendRate env mac
    let s := spent.2
    if !spent.1 then s
    else
      match openDiscover P l master with
      | none => s
      | some (discoverId, _, token) =>
        if cfg.discoverToken ≠ "" ∧ token ≠ some cfg.discoverToken then s
        else if (s.peers.lookup mac).isNone && decide (maxPeers ≤ s.peers.keys.length) then s
        else s.answerDiscover P cfg master env mac ifindex discoverId

def lockoutReason (remaining : ℕ) : String :=
  "too many auth failures, locked out for " ++ toString (remaining / second) ++ "s"

/-- The lockout reply: sealed with the pending nonce, which is taken for it, and in
clear when there is none. -/
def refuseLocked (s : Server S) (mac : Mac) (peer : Peer S) (guard : AuthGuard)
    (replyIfindex : Int32) : Server S :=
  match guard.remaining env.now with
  | none => s
  | some rem =>
    let taken := peer.sess.takeServerNonce
    let s := s.setPeer mac { peer with sess := taken.2 }
    match taken.1 with
    | some sNonce =>
      let nack := (HandshakeKeys.derive P master sNonce).sealFrame P .s2c typeAuthNack 0 hsAuthNack
        (encodeAuthNackPayload (lockoutReason rem))
      s.send env replyIfindex mac nack.raw (some nack.op)
    | none => s.send env replyIfindex mac (encodeAuthNack (lockoutReason rem)) none

def guardOf (s : Server S) (mac : Mac) : AuthGuard :=
  (s.guards.lookup mac).getD (.default env.now)

def setGuard (s : Server S) (mac : Mac) (g : AuthGuard) : Server S :=
  { s with guards := s.guards.insert mac g }

/-- A new stack with its pool of listeners. -/
def freshStack : S × List SocketHandle :=
  (List.range listenerPoolSize).foldl
    (fun acc _ =>
      let added := ops.listen acc.1 internalPort
      (added.1, acc.2 ++ [added.2]))
    (ops.create serverAddr env.seed env.now, [])

/-- An accepted AUTH_REQ replaces whatever session the peer had. -/
def establish (s : Server S) (mac : Mac) (peer : Peer S) (replyIfindex : Int32) (sid : UInt32)
    (keys : SessionKeys) (serverProof : Digest) (hkey : HandshakeKeys) : Server S :=
  let s := s.setGuard mac ((s.guardOf env mac).recordSuccess env.now)
  let s := s.subBytes (peer.pendingTx.sumBy queueBytes)
  let built := freshStack ops env
  let s := s.setPeer mac { teardownPeer peer with
    stack := some built.1
    pollAt := some env.now
    listeners := built.2
    crypto := some (SessionCrypto.new keys .s2c)
    ifindex := replyIfindex
    lastSeen := env.now }
  let ack := hkey.sealFrame P .s2c typeAuthAck sid hsAuthAck (encodeAuthAckPayload serverProof)
  s.sendOrStop env replyIfindex mac ack.raw (some ack.op)

/-- Failures older than the window leave the server-wide list from the front. -/
def pruneFails (now : Instant) : List Instant → List Instant
  | [] => []
  | t :: ts => if authWindow < now - t then pruneFails now ts else t :: ts

/-- The bookkeeping of a rejected AUTH_REQ of a MAC without a session. -/
def countFailure (s : Server S) (mac : Mac) : Server S :=
  let ts := pruneFails env.now s.authFailTs
  if ts.length < authBudget then
    { s.setGuard mac ((s.guardOf env mac).recordFailure env.now) with
      authFailTs := ts ++ [env.now] }
  else { s with authFailTs := ts }

/-- A rejected AUTH_REQ: a sealed NACK, then, without a session, the failure count
and the removal of the peer. -/
def reject (s : Server S) (mac : Mac) (peer : Peer S) (replyIfindex : Int32) (reason : String)
    (hkey : HandshakeKeys) : Server S :=
  let nack := hkey.sealFrame P .s2c typeAuthNack 0 hsAuthNack (encodeAuthNackPayload reason)
  let s := (s.setPeer mac peer).sendOrStop env replyIfindex mac nack.raw (some nack.op)
  if !s.running then s
  else if peer.sess.sessionId.isSome then s
  else (s.countFailure env mac).removePeer mac

def replyIfindexOf (peer : Peer S) : Int32 :=
  if peer.handshakeIfindex ≠ 0 then peer.handshakeIfindex else peer.ifindex

/-- An AUTH_REQ that passed the lockout check. -/
def verifyReq (s : Server S) (mac : Mac) (peer : Peer S) (l : Frame) : Server S :=
  let verdict := peer.sess.verifyAuth P l master
  let peer' := { peer with sess := verdict.2 }
  let s := { s with
    verdicts := s.verdicts ++ [(⟨env.now, mac, l, peer.sess.pending, verdict.1⟩ : Verdict)] }
  match verdict.1 with
  | .accepted sid keys serverProof hkey _ =>
    s.establish P ops env mac peer' (replyIfindexOf peer) sid keys serverProof hkey
  | .rejected reason hkey => s.reject P env mac peer' (replyIfindexOf peer) reason hkey
  | .unauthentic _ => s.setPeer mac peer'

def onAuthReq (s : Server S) (mac : Mac) (l : Frame) : Server S :=
  let spent := s.spendGlobal env
  if !spent.1 then spent.2
  else
    match spent.2.peers.lookup mac with
    | none => spent.2
    | some peer =>
      let spent := spent.2.spendRate env mac
      if !spent.1 then spent.2
      else
        let checked := (spent.2.guardOf env mac).blocked env.now
        let s := spent.2.setGuard mac checked.2
        if checked.1 && peer.sess.sessionId.isNone then
          s.refuseLocked P master env mac peer checked.2 (replyIfindexOf peer)
        else s.verifyReq P ops master env mac peer l

/-- The peer whose session a KEEPALIVE, DATA or TEARDOWN frame names, with its crypto. -/
def sessionOf (s : Server S) (mac : Mac) (l : Frame) : Option (Peer S × SessionCrypto) :=
  match s.peers.lookup mac with
  | none => none
  | some peer =>
    if peer.sess.sessionId ≠ some l.sessionId then none
    else peer.crypto.map (fun crypto => (peer, crypto))

def openWith (crypto : SessionCrypto) (l : Frame) : Option Bytes × SessionCrypto :=
  crypto.openSession P l.msgType l.sessionId l.seq l.len l.payload

def onKeepalive (s : Server S) (mac : Mac) (l : Frame) : Server S :=
  match s.sessionOf mac l with
  | none => s
  | some (peer, crypto) =>
    let opened := openWith P crypto l
    match opened.1 with
    | none => (s.setPeer mac { peer with crypto := some opened.2 }).spendFail env mac
    | some _ =>
      let echo := opened.2.sealSession P typeKeepalive l.sessionId []
      let s := s.setPeer mac { peer with crypto := some echo.2, lastSeen := env.now }
      s.sendOrStop env peer.ifindex mac echo.1.raw (some echo.1.op)

def onData (s : Server S) (mac : Mac) (l : Frame) : Server S :=
  match s.sessionOf mac l with
  | none => s
  | some (peer, crypto) =>
    let opened := openWith P crypto l
    match opened.1 with
    | none => (s.setPeer mac { peer with crypto := some opened.2 }).spendFail env mac
    | some plain =>
      let peer := { peer with crypto := some opened.2, lastSeen := env.now }
      match peer.stack with
      | none => s.setPeer mac peer
      | some stack =>
        (s.setPeer mac { peer with stack := some (ops.pushPacket stack plain) }).pumpPeer P ops env
          mac l.sessionId

def onTeardown (s : Server S) (mac : Mac) (l : Frame) : Server S :=
  match s.sessionOf mac l with
  | none => s
  | some (peer, crypto) =>
    let opened := openWith P crypto l
    let s := s.setPeer mac { peer with crypto := some opened.2 }
    match opened.1 with
    | none => s.spendFail env mac
    | some _ => s.removePeer mac

/-- The reply to a frame of another protocol version. -/
def onBadVersion (s : Server S) (mac : Mac) (ifindex : Int32) : Server S :=
  let spent := s.spendGlobal env
  if spent.1 then spent.2.send env ifindex mac encodeVersionMismatch none else spent.2

def onFrame (s : Server S) (mac : Mac) (ifindex : Int32) (raw : Bytes) : Server S :=
  match decode raw with
  | .error .badVersion => s.onBadVersion env mac ifindex
  | .error _ => s
  | .ok l =>
    if l.msgType = typeDiscover then s.onDiscover P cfg master env mac ifindex l
    else if l.msgType = typeAuthReq then s.onAuthReq P ops master env mac l
    else if l.msgType = typeKeepalive then s.onKeepalive P env mac l
    else if l.msgType = typeData then s.onData P ops env mac l
    else if l.msgType = typeTeardown then s.onTeardown P env mac l
    else s

end Frames

section Loop

variable (P : Primitives) (ops : StackOps S Sock) (env : ServerEnv)

/-- One message of a connection task, taken only while the counter is below its cap.
It is applied to the connection that the key names now. -/
def applyMsg (s : Server S) (mac : Mac) (h : SocketHandle) (peer : Peer S) (conn : ServerConn)
    (q : Queued) : Server S :=
  let s := { s with applied := s.applied ++ [(q.origin, conn.chan)] }
  match q.msg with
  | .data b =>
    { s with pendingTxBytes := s.pendingTxBytes + b.length } |>.setPeer mac
      { peer with pendingTx := peer.pendingTx.insert h ((peer.pendingTx.lookup h).getD [] ++ [b]) }
  | .close =>
    match peer.stack with
    | none => s
    | some stack =>
      if (peer.pendingTx.lookup h).isSome then
        s.setPeer mac { peer with
          conns := peer.conns.insert h { conn with closeAfterFlush := true } }
      else s.setPeer mac { peer with stack := some (ops.close stack h) }

def onToRx (s : Server S) : Server S :=
  match s.toRx with
  | [] => s
  | q :: rest =>
    if s.pendingTxBytes < maxPendingToStackBytes then
      let s := { s with toRx := rest }
      match s.peers.lookup q.key.1 with
      | none => s
      | some peer =>
        match peer.conns.lookup q.key.2.1 with
        | none => s
        | some conn =>
          if conn.generation = q.key.2.2 then
            (s.applyMsg ops q.key.1 q.key.2.1 peer conn q).pumpSession P ops env q.key.1
          else s
    else s

/-- A key of the wake set still names a live connection. -/
def keyLive (s : Server S) (key : ServerConnKey) : Bool :=
  match s.peers.lookup key.1 with
  | none => false
  | some peer =>
    match peer.conns.lookup key.2.1 with
    | none => false
    | some conn => conn.generation == key.2.2

def readyPeers (s : Server S) (keys : List ServerConnKey) : List Mac :=
  ((keys.filter s.keyLive).map Prod.fst).dedup

def onWake (s : Server S) : Server S :=
  { s with wake := [] }.pumpEach P ops env (env.macOrder (s.readyPeers s.wake))

def duePeers (s : Server S) : List Mac :=
  s.peers.keys.filter (fun mac =>
    match s.peers.lookup mac with
    | none => false
    | some peer =>
      match peer.pollAt with
      | none => false
      | some t => t ≤ env.now)

def onPoll (s : Server S) : Server S :=
  s.pumpEach P ops env (env.macOrder (s.duePeers env))

/-- Seals a TEARDOWN for a peer with a session and sends it, whether or not the link
takes it. -/
def sendTeardown (s : Server S) (mac : Mac) : Server S :=
  match s.peers.lookup mac with
  | none => s
  | some peer =>
    match peer.sess.sessionId, peer.crypto with
    | some sid, some crypto =>
      let raw := crypto.sealSession P typeTeardown sid []
      (s.setPeer mac { peer with crypto := some raw.2 }).send env peer.ifindex mac raw.1.raw
        (some raw.1.op)
    | _, _ => s

def stalePeers (s : Server S) : List Mac :=
  s.peers.keys.filter (fun mac =>
    match s.peers.lookup mac with
    | none => false
    | some peer => staleAfter < env.now - peer.lastSeen)

def onSweep (s : Server S) : Server S :=
  let fresh : Instant → Bool := fun lastSeen => env.now - lastSeen ≤ staleAfter
  let s := { s with
    rate := Assoc.retain (fun b => fresh b.lastSeen) s.rate
    failRate := Assoc.retain (fun b => fresh b.lastSeen) s.failRate
    guards := Assoc.retain (fun g => fresh g.lastSeen) s.guards }
  (env.macOrder (s.stalePeers env)).foldl
    (fun s mac => (s.sendTeardown P env mac).removePeer mac) s

def onShutdown (s : Server S) : Server S :=
  { (env.macOrder s.peers.keys).foldl (fun s mac => s.sendTeardown P env mac) s with
    running := false }

end Loop

end Server

end LandscapeKit.Flare
