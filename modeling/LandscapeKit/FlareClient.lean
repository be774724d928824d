import LandscapeKit.FlareRelay
import LandscapeKit.FlareGuard

/-!
The session loop of the lflare client (`client/session.rs`, `client/forward.rs` and
`pump` of `client/mod.rs`): one encrypted session with its local listeners and its
bridge tasks.
-/

namespace LandscapeKit.Flare

open Bytes

/-- A local port and the port the server dials for it. -/
abbrev Forward := UInt16 × UInt16
abbrev ConnKey := SocketHandle × UInt64

def firstLocalPort : UInt16 := 40000
def maxMissedKeepalives : ℕ := 3
def maxFailedOpensPerSec : ℕ := 200
def bridgeBufferLen : ℕ := 8192
def bridgeChannelCapacity : ℕ := 512

/-- What the client keeps for a connection beside the shared fields; `closeTx` until
the close signal was sent. -/
structure ClientExtra where
  forward : Forward
  localPort : UInt16
  closeTx : Bool
deriving DecidableEq

abbrev ClientConn := Conn ClientExtra

structure FailBudget where
  windowStart : Instant
  fails : ℕ
deriving DecidableEq

def FailBudget.allow (b : FailBudget) (now : Instant) : Bool × FailBudget :=
  let b := if second ≤ now - b.windowStart then ⟨now, 0⟩ else b
  (decide (b.fails + 1 ≤ maxFailedOpensPerSec), { b with fails := b.fails + 1 })

def nextPort (candidate : UInt16) : UInt16 :=
  if candidate = 65535 then firstLocalPort else candidate + 1

def allocateLoop (start : UInt16) (isUsed : UInt16 → Bool) : ℕ → UInt16 → Option UInt16 × UInt16
  | 0, next => (none, next)
  | fuel+1, next =>
    if !isUsed next then (some next, nextPort next)
    else if nextPort next = start then (none, nextPort next)
    else allocateLoop start isUsed fuel (nextPort next)

/-- Allocates an internal source port that no live connection uses. The counter goes
round the 25536 ports from `firstLocalPort` on, so that many rounds are enough. -/
def allocateLocalPort (next : UInt16) (isUsed : UInt16 → Bool) : Option UInt16 × UInt16 :=
  allocateLoop next isUsed 25536 next

/-- Where `bridge_task` stands. `sending` and `signalling` wait for room in the channel
to the loop; `signalling true` returns after the close is sent. -/
inductive BridgePhase
  | relaying
  | sending (bytes : Bytes)
  | signalling (returns : Bool)
  | writing (bytes : Bytes)
  | shuttingDown
  | done
deriving DecidableEq

structure BridgeTask where
  key : ConnKey
  phase : BridgePhase
  localEof : Bool
deriving DecidableEq

/-- What a bridge task meets at its next await point. -/
inductive BridgeAct
  | read (bytes : Bytes)
  | readFailed
  | recv
  | wrote (ok : Bool)
  | closeSignal
  | shutDown
  | send
deriving DecidableEq

/-- A message of a bridge task to the loop. -/
structure BridgeQueued where
  key : ConnKey
  msg : StackMsg
deriving DecidableEq

inductive ForwardCommand
  | add (forward : Forward)
  | remove (forward : Forward)
deriving DecidableEq

inductive SessionEnd
  | linkLost
  | peerClosed
  | shutdown
  | failed
deriving DecidableEq

/-- How one turn of the loop goes on: into the pump, straight into the next turn
(`continue`), or out of the loop. -/
inductive Turn
  | pump
  | again
  | stop (reason : SessionEnd)
deriving DecidableEq

/-- The locals of `session_loop` and the tasks it spawned. -/
structure Client (S : Type) where
  flow : Flow S ClientExtra
  toRx : List BridgeQueued
  tasks : ConnId → Option BridgeTask
  nextConn : ConnId
  activeForwards : List Forward
  listeners : List Forward
  controlled : Bool
  missed : ℕ
  nextLocalPort : UInt16
  nextGeneration : UInt64
  failBudget : FailBudget
  ended : Option SessionEnd

structure SessionArgs where
  serverMac : Mac
  sid : UInt32
  keys : SessionKeys
  forwards : List Forward
  advertisedPorts : List UInt16

/-- What one turn meets: the clock, the outcome of each send, and the order in which
the hash map of connections is walked. -/
structure ClientEnv where
  now : Instant
  sendOk : ℕ → Bool
  order : List SocketHandle → List SocketHandle
  order_perm : ∀ l, (order l).Perm l

namespace Client

variable {S Sock : Type} (P : Primitives) (ops : StackOps S Sock) (args : SessionArgs)
  (env : ClientEnv)

def init (now : Instant) (seed : UInt64) : Client S where
  flow :=
    { stack := ops.create clientAddr seed now
      crypto := SessionCrypto.new args.keys .c2s
      conns := ∅
      pendingTx := ∅
      pendingTxBytes := 0
      saturated := false
      chans := fun _ => .empty
      wire := []
      failed := false }
  toRx := []
  tasks := fun _ => none
  nextConn := 0
  activeForwards := args.forwards
  listeners := args.forwards.dedup
  controlled := true
  missed := 0
  nextLocalPort := firstLocalPort
  nextGeneration := 1
  failBudget := ⟨now, 0⟩
  ended := none

def link : LinkEnv := ⟨env.now, 0, args.serverMac, args.sid, env.sendOk⟩

/-- Seal a frame of the session and hand it to the link. -/
def sendSealed (c : Client S) (msgType : UInt8) : Bool × Client S :=
  let raw := c.flow.crypto.sealSession P msgType args.sid []
  let ok := env.sendOk c.flow.wire.length
  (ok, { c with flow := { c.flow with
    crypto := raw.2
    wire := c.flow.wire ++ [⟨0, args.serverMac, raw.1.raw, some raw.1.op, ok⟩] } })

/-- The end of the loop: a best-effort TEARDOWN, and the listeners are aborted. -/
def finish (c : Client S) (reason : SessionEnd) : Client S :=
  { (c.sendSealed P args env typeTeardown).2 with listeners := [], ended := some reason }

/-- `pump`; a failed send ends the session. -/
def pump (c : Client S) : Client S :=
  let flow := ((c.flow.pollAndSend P ops (link args env)).relayAll ops env.order).pollAndSend P ops
    (link args env)
  let c := { c with flow := flow }
  if flow.failed then c.finish P args env .failed else c

def openWith (c : Client S) (l : Frame) : Option Bytes × Client S :=
  let opened := c.flow.crypto.openSession P l.msgType l.sessionId l.seq l.len l.payload
  (opened.1, { c with flow := { c.flow with crypto := opened.2 } })

def onFrame (c : Client S) (raw : Bytes) : Client S × Turn :=
  match decode raw with
  | .error _ => (c, .pump)
  | .ok l =>
    if l.sessionId ≠ args.sid then (c, .again)
    else if l.msgType = typeTeardown then
      let opened := c.openWith P l
      let spent := c.failBudget.allow env.now
      match opened.1 with
      | some _ => (opened.2, .stop .peerClosed)
      | none => ({ opened.2 with failBudget := spent.2 }, if spent.1 then .pump else .again)
    else if l.msgType = typeKeepalive ∨ l.msgType = typeData then
      let opened := c.openWith P l
      match opened.1 with
      | none => ({ opened.2 with failBudget := (c.failBudget.allow env.now).2 }, .again)
      | some plain =>
        -- Any authenticated frame proves that the peer and the link are alive.
        let c := { opened.2 with missed := 0 }
        if l.msgType = typeData then
          ({ c with flow := { c.flow with stack := ops.pushPacket c.flow.stack plain } }, .pump)
        else (c, .pump)
    else (c, .pump)

def portUsed (c : Client S) (port : UInt16) : Bool :=
  c.flow.conns.entries.any (fun e => e.2.extra.localPort == port)

/-- A local connection came in: a stack socket toward the server, a bridge task, and
the destination port as the first two bytes of the stream. -/
def onAccept (c : Client S) (forward : Forward) : Client S × Turn :=
  let port := allocateLocalPort c.nextLocalPort c.portUsed
  match port.1 with
  | none => ({ c with nextLocalPort := port.2 }, .again)
  | some localPort =>
    let socket := ops.connect c.flow.stack serverAddr internalPort localPort
    let h := socket.2
    ({ c with
      flow := { c.flow with
        stack := socket.1
        conns := c.flow.conns.insert h
          ⟨c.nextConn, c.nextGeneration, false, false, ⟨forward, localPort, true⟩⟩
        chans := Function.update c.flow.chans c.nextConn .empty
        pendingTx := c.flow.pendingTx.insert h
          ((c.flow.pendingTx.lookup h).getD [] ++ [ofU16 forward.2])
        pendingTxBytes := c.flow.pendingTxBytes + 2 }
      tasks := Function.update c.tasks c.nextConn (some ⟨(h, c.nextGeneration), .relaying, false⟩)
      nextConn := c.nextConn + 1
      nextLocalPort := port.2
      nextGeneration := max (c.nextGeneration + 1) 1 }, .pump)

/-- One message of a bridge task, taken only while the counter is below its cap. -/
def onToRx (c : Client S) : Client S × Turn :=
  match c.toRx with
  | [] => (c, .again)
  | q :: rest =>
    if c.flow.pendingTxBytes < maxPendingToStackBytes then
      let c := { c with toRx := rest }
      let h := q.key.1
      match c.flow.conns.lookup h with
      | none => (c, .again)
      | some conn =>
        if conn.generation ≠ q.key.2 then (c, .again)
        else
          match q.msg with
          | .data b =>
            ({ c with flow := { c.flow with
              pendingTxBytes := c.flow.pendingTxBytes + b.length
              pendingTx := c.flow.pendingTx.insert h
                ((c.flow.pendingTx.lookup h).getD [] ++ [b]) } }, .pump)
          | .close =>
            if (c.flow.pendingTx.lookup h).isSome then
              ({ c with flow := { c.flow with
                conns := c.flow.conns.insert h { conn with closeAfterFlush := true } } }, .pump)
            else
              ({ c with flow := { c.flow with stack := ops.close c.flow.stack h } }, .pump)
    else (c, .again)

/-- One connection of a forward that was removed: its task is signalled once, and the
stack socket closes. -/
def closeConnection (flow : Flow S ClientExtra) (h : SocketHandle) : Flow S ClientExtra :=
  match flow.conns.lookup h with
  | none => { flow with stack := ops.close flow.stack h }
  | some conn =>
    { flow with
      stack := ops.close flow.stack h
      conns := flow.conns.insert h { conn with extra := { conn.extra with closeTx := false } } }

def closeConnections (c : Client S) (forward : Forward) : Client S :=
  let handles := (env.order c.flow.conns.keys).filter (fun h =>
    match c.flow.conns.lookup h with
    | none => false
    | some conn => conn.extra.forward == forward)
  { c with flow := handles.foldl (closeConnection ops) c.flow }

def onCommand (c : Client S) (command : Option ForwardCommand) : Client S × Turn :=
  if !c.controlled then (c, .again)
  else
    match command with
    | none => ({ c with controlled := false }, .pump)
    | some (.add forward) =>
      if forward ∈ c.activeForwards then (c, .pump)
      else if forward.2 ∉ args.advertisedPorts then (c, .pump)
      else
        ({ c with
          activeForwards := c.activeForwards ++ [forward]
          listeners := c.listeners.insert forward }, .pump)
    | some (.remove forward) =>
      ({ c with
        activeForwards := c.activeForwards.erase forward
        listeners := c.listeners.erase forward }.closeConnections ops env forward, .pump)

def onKeepalive (c : Client S) : Client S × Turn :=
  let sent := c.sendSealed P args env typeKeepalive
  if !sent.1 then (sent.2, .stop .failed)
  else
    let c := { sent.2 with missed := sent.2.missed + 1 }
    if maxMissedKeepalives ≤ c.missed then (c, .stop .linkLost) else (c, .pump)

section Bridge

def setTask (c : Client S) (id : ConnId) (t : BridgeTask) : Client S :=
  { c with tasks := Function.update c.tasks id (some t) }

def setChan (c : Client S) (id : ConnId) (chan : Chan) : Client S :=
  { c with flow := { c.flow with chans := Function.update c.flow.chans id chan } }

/-- The task returns and drops its receiver. -/
def endTask (c : Client S) (id : ConnId) (t : BridgeTask) : Client S :=
  (c.setTask id { t with phase := .done }).setChan id { c.flow.chans id with closed := true }

/-- The sending half of a connection's channel is held by the connection table. -/
def senderAlive (c : Client S) (id : ConnId) : Bool :=
  c.flow.conns.entries.any (fun e => e.2.chan == id)

/-- The close signal is ready: it was sent, or its sender is gone with the connection. -/
def closeReady (c : Client S) (id : ConnId) : Bool :=
  !c.flow.conns.entries.any (fun e => e.2.chan == id && e.2.extra.closeTx)

def pushToRx (c : Client S) (q : BridgeQueued) : Client S := { c with toRx := c.toRx ++ [q] }

def taskStep (c : Client S) (id : ConnId) (t : BridgeTask) (act : BridgeAct) : Client S :=
  match t.phase, act with
  | .relaying, .read b =>
    if t.localEof then c
    else if b = [] then c.setTask id { t with phase := .signalling false }
    else if b.length ≤ bridgeBufferLen then c.setTask id { t with phase := .sending b }
    else c
  | .relaying, .readFailed =>
    if t.localEof then c else c.setTask id { t with phase := .signalling true }
  | .relaying, .recv =>
    match (c.flow.chans id).queue with
    | .data b :: rest =>
      (c.setTask id { t with phase := .writing b }).setChan id { c.flow.chans id with queue := rest }
    | .peerEof :: rest =>
      (c.setTask id { t with phase := .signalling true }).setChan id
        { c.flow.chans id with queue := rest }
    | [] => if c.senderAlive id then c else c.setTask id { t with phase := .signalling true }
  | .relaying, .closeSignal =>
    if c.closeReady id then c.setTask id { t with phase := .shuttingDown } else c
  | .writing _, .wrote ok =>
    c.setTask id { t with phase := if ok then .relaying else .signalling true }
  | .shuttingDown, .shutDown => c.setTask id { t with phase := .signalling true }
  | .sending b, .send =>
    if c.ended.isSome then c.endTask id t
    else if c.toRx.length < bridgeChannelCapacity then
      (c.setTask id { t with phase := .relaying }).pushToRx ⟨t.key, .data b⟩
    else c
  | .signalling returns, .send =>
    if c.ended.isNone && decide (bridgeChannelCapacity ≤ c.toRx.length) then c
    else
      -- The result of this send is ignored, so a loop that is gone changes nothing here.
      let c := if c.ended.isSome then c else c.pushToRx ⟨t.key, .close⟩
      if returns then c.endTask id t
      else c.setTask id { t with phase := .relaying, localEof := true }
  | _, _ => c

end Bridge

/-- One event: a branch of the `select!`, or one step of a bridge task. Local
connections may come in for any forward, also one whose listener is gone by now. -/
inductive Event
  | frame (raw : Bytes)
  | recvFailed
  | accept (forward : Forward)
  | toRx
  | command (command : Option ForwardCommand)
  | wake
  | poll
  | keepalive
  | shutdown
  | task (id : ConnId) (act : BridgeAct)

/-- One branch of the `select!`, up to the pump; `due` says that the stack has a deadline. -/
def branch (c : Client S) (due : Bool) (e : Event) : Client S × Turn :=
  match e with
  | .frame raw => c.onFrame P ops args env raw
  | .recvFailed => (c, .stop .failed)
  | .accept forward => c.onAccept ops forward
  | .toRx => c.onToRx ops
  | .command command => c.onCommand ops args env command
  | .wake => (c, .pump)
  | .poll => (c, if due then .pump else .again)
  | .keepalive => c.onKeepalive P args env
  | .shutdown => (c, .stop .shutdown)
  | .task _ _ => (c, .again)

def step (c : Client S) (e : Event) : Client S :=
  match e with
  | .task id act =>
    match c.tasks id with
    | none => c
    | some t => c.taskStep id t act
  | e =>
    if c.ended.isSome then c
    else
      -- The deadline for the next poll is computed at the head of every turn.
      let delay := ops.pollDelay env.now c.flow.stack
      let c := { c with flow := { c.flow with stack := delay.1 } }
      let turn := c.branch P ops args env delay.2.isSome e
      match turn.2 with
      | .pump => turn.1.pump P ops args env
      | .again => turn.1
      | .stop reason => turn.1.finish P args env reason

def run (c : Client S) (events : List (ClientEnv × Event)) : Client S :=
  events.foldl (fun c e => c.step P ops args e.1 e.2) c

end Client

/-! A concrete session and environment of the client, for evaluation. -/

def sampleServerMac : Mac := ⟨[2, 0, 0, 0, 0, 2], rfl⟩

def sampleArgs : SessionArgs := ⟨sampleServerMac, 1, sampleKeys, [(8022, 22)], [22]⟩

def sampleClientEnv : ClientEnv := ⟨0, fun _ => true, id, List.Perm.refl⟩

end LandscapeKit.Flare
