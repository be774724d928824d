import LandscapeKit.LibAssoc
import LandscapeKit.FlareCrypto

/-!
The part of the relay that `pump_peer` on the server and `pump` on the client
share: seal what the TCP stack emits, move bytes between the per-connection
queues, the stack and the connection tasks, and reap closed sockets. smoltcp is
an outside crate; `StackOps` lists what `ipstack.rs` calls of it.
-/

namespace LandscapeKit.Flare

open Bytes

abbrev Mac := List.Vector UInt8 6
abbrev SocketHandle := ℕ
/-- Nanoseconds on the monotonic clock. -/
abbrev Instant := ℕ
/-- Identity of one relayed connection: of its channel and its task. -/
abbrev ConnId := ℕ

def internalPort : UInt16 := 4444
def clientAddr : UInt32 := 0x0a0d0001
def serverAddr : UInt32 := 0x0a0d0002
def connectionChannelCapacity : ℕ := 16
def maxPendingToStackBytes : ℕ := 32 * 1024 * 1024

inductive TcpState
  | closed
  | listen
  | synSent
  | synReceived
  | established
  | finWait1
  | finWait2
  | closeWait
  | closing
  | lastAck
  | timeWait
deriving DecidableEq

def peerEofState (state : TcpState) (canRecv : Bool) : Bool :=
  !canRecv && (state == .closeWait || state == .closing || state == .lastAck || state == .timeWait)

/-- What the code uses of a smoltcp interface `S` and of its sockets. -/
structure StackOps (S Sock : Type) where
  create : (addr : UInt32) → (seed : UInt64) → Instant → S
  pushPacket : S → Bytes → S
  poll : Instant → S → S × List Bytes
  pollDelay : Instant → S → S × Option ℕ
  listen : S → (port : UInt16) → S × SocketHandle
  connect : S → (remote : UInt32) → (remotePort localPort : UInt16) → S × SocketHandle
  state : S → SocketHandle → TcpState
  canRecv : S → SocketHandle → Bool
  removeSocket : S → SocketHandle → S × Sock
  addSocket : S → Sock → S × SocketHandle
  sendSlice : S → SocketHandle → Bytes → S × ℕ
  recvSlice : S → SocketHandle → (room : ℕ) → S × Bytes
  close : S → SocketHandle → S

namespace StackOps

variable {S Sock : Type} (ops : StackOps S Sock)

def SendsAtMostOffered : Prop := ∀ s h b, (ops.sendSlice s h b).2 ≤ b.length

/-- Moves a listener that got a connection to a handle of its own and puts a new
listener in its place. -/
def accept (s : S) (listener : SocketHandle) (port : UInt16) :
    S × Option (SocketHandle × SocketHandle) :=
  if ops.state s listener = .listen then (s, none)
  else
    let established := ops.removeSocket s listener
    let conn := ops.addSocket established.1 established.2
    let listener := ops.listen conn.1 port
    (listener.1, some (conn.2, listener.2))

def socketClosed (s : S) (h : SocketHandle) : Bool := ops.state s h == .closed

def peerEof (s : S) (h : SocketHandle) : Bool := peerEofState (ops.state s h) (ops.canRecv s h)

end StackOps

/-- Bytes from the stack to a connection task (`RelayMsg`, `BridgeMsg`). -/
inductive RelayMsg
  | data (bytes : Bytes)
  | peerEof
deriving DecidableEq

/-- Bytes from a connection task to the stack. -/
inductive StackMsg
  | data (bytes : Bytes)
  | close
deriving DecidableEq

/-- The bounded channel of one connection; `closed` once its receiver is gone. -/
structure Chan where
  queue : List RelayMsg
  closed : Bool
deriving DecidableEq

namespace Chan

def empty : Chan := ⟨[], false⟩

def free (c : Chan) : ℕ := if c.closed then 0 else connectionChannelCapacity - c.queue.length

def push (c : Chan) (m : RelayMsg) : Chan := { c with queue := c.queue ++ [m] }

end Chan

/-- One relayed connection; `extra` is what only one side keeps. -/
structure Conn (X : Type) where
  chan : ConnId
  generation : UInt64
  closeAfterFlush : Bool
  peerEofSent : Bool
  extra : X
deriving DecidableEq

/-- A frame handed to the link, with the AEAD call it came from. -/
structure OutFrame where
  ifindex : Int32
  dst : Mac
  raw : Bytes
  op : Option SealOp
  sent : Bool
deriving DecidableEq

/-- Where a pump sends, and which `send` calls of the link succeed. -/
structure LinkEnv where
  now : Instant
  ifindex : Int32
  mac : Mac
  sid : UInt32
  sendOk : ℕ → Bool

/-- The state a pump works on. `saturated` records whether a `saturating_sub` of
the byte counter ever hit zero early; `failed` that a send failed and the pump
returned with its error. -/
structure Flow (S X : Type) where
  stack : S
  crypto : SessionCrypto
  conns : Assoc SocketHandle (Conn X)
  pendingTx : Assoc SocketHandle (List Bytes)
  pendingTxBytes : ℕ
  saturated : Bool
  chans : ConnId → Chan
  wire : List OutFrame
  failed : Bool

def queueBytes (q : List Bytes) : ℕ := (q.map List.length).sum

namespace Flow

variable {S Sock X : Type} (P : Primitives) (ops : StackOps S Sock) (link : LinkEnv)

def sendData (st : Flow S X) (pkt : Bytes) : Flow S X :=
  let frame := st.crypto.sealSession P typeData link.sid pkt
  let ok := link.sendOk st.wire.length
  { st with
    crypto := frame.2
    wire := st.wire ++ [⟨link.ifindex, link.mac, frame.1.raw, some frame.1.op, ok⟩]
    failed := !ok }

/-- `for pkt in stack.poll()`: each packet is sealed and sent, up to the first
send that fails. -/
def pollAndSend (st : Flow S X) : Flow S X :=
  if st.failed then st
  else
    let polled := ops.poll link.now st.stack
    polled.2.foldl (fun st pkt => if st.failed then st else st.sendData P link pkt)
      { st with stack := polled.1 }

def subBytes (st : Flow S X) (n : ℕ) : Flow S X :=
  { st with
    pendingTxBytes := st.pendingTxBytes - n
    saturated := st.saturated || decide (st.pendingTxBytes < n) }

/-- The `while let Some(front)` loop over one queue. Every round that goes on
removes a byte or an empty chunk, so the fuel `flushQueue` starts with is enough. -/
def flushLoop (h : SocketHandle) : ℕ → Flow S X → List Bytes → Flow S X × List Bytes
  | 0, st, q => (st, q)
  | _+1, st, [] => (st, [])
  | fuel+1, st, front :: rest =>
    let sent := ops.sendSlice st.stack h front
    if sent.2 = 0 then ({ st with stack := sent.1 }, front :: rest)
    else
      let front' := front.drop sent.2
      flushLoop h fuel ({ st with stack := sent.1 } |>.subBytes sent.2)
        (if front' = [] then rest else front' :: rest)

def flushFuel (q : List Bytes) : ℕ := queueBytes q + q.length + 1

def flushQueue (st : Flow S X) (h : SocketHandle) : Flow S X :=
  match st.pendingTx.lookup h with
  | none => st
  | some q =>
    let flushed := flushLoop ops h (flushFuel q) st q
    if flushed.2 = [] then { flushed.1 with pendingTx := flushed.1.pendingTx.erase h }
    else { flushed.1 with pendingTx := flushed.1.pendingTx.insert h flushed.2 }

/-- The delayed FIN, once the queue of the connection has drained. -/
def closeFlushed (st : Flow S X) (h : SocketHandle) : Flow S X :=
  match st.conns.lookup h with
  | none => st
  | some conn =>
    if (st.pendingTx.lookup h).isNone && conn.closeAfterFlush then
      { st with
        stack := ops.close st.stack h
        conns := st.conns.insert h { conn with closeAfterFlush := false } }
    else st

/-- The receive loop: one 4096-byte read for each free slot of the channel. -/
def recvLoop (h : SocketHandle) (chan : ConnId) : ℕ → Flow S X → Flow S X
  | 0, st => st
  | slots+1, st =>
    let received := ops.recvSlice st.stack h 4096
    if received.2 = [] then { st with stack := received.1 }
    else
      recvLoop h chan slots { st with
        stack := received.1
        chans := Function.update st.chans chan ((st.chans chan).push (.data received.2)) }

def recvQueue (st : Flow S X) (h : SocketHandle) : Flow S X :=
  match st.conns.lookup h with
  | none => st
  | some conn => recvLoop ops h conn.chan (st.chans conn.chan).free st

/-- Decides whether the socket is to be reaped, and passes the peer's EOF on. -/
def settle (st : Flow S X) (h : SocketHandle) : Flow S X × Bool :=
  match st.conns.lookup h with
  | none => (st, false)
  | some conn =>
    let chan := st.chans conn.chan
    let fromDrained := chan.closed || chan.queue.isEmpty
    if ops.socketClosed st.stack h && fromDrained then (st, true)
    else if ops.peerEof st.stack h && !conn.peerEofSent then
      if chan.closed then ({ st with stack := ops.close st.stack h }, false)
      else if chan.free = 0 then (st, false)
      else
        ({ st with
          chans := Function.update st.chans conn.chan (chan.push .peerEof)
          conns := st.conns.insert h { conn with peerEofSent := true } }, false)
    else (st, false)

def serveHandle (acc : Flow S X × List SocketHandle) (h : SocketHandle) :
    Flow S X × List SocketHandle :=
  let st := acc.1.flushQueue ops h
  let st := st.closeFlushed ops h
  let st := st.recvQueue ops h
  let settled := st.settle ops h
  (settled.1, if settled.2 then acc.2 ++ [h] else acc.2)

def reapHandle (st : Flow S X) (h : SocketHandle) : Flow S X :=
  let st := { st with stack := (ops.removeSocket st.stack h).1 }
  let st := match st.pendingTx.lookup h with
    | none => st
    | some q => { st with pendingTx := st.pendingTx.erase h } |>.subBytes (queueBytes q)
  { st with conns := st.conns.erase h }

/-- The loop over the handles, collected in the iteration order of the map, and
then the reaping. -/
def relayAll (order : List SocketHandle → List SocketHandle) (st : Flow S X) : Flow S X :=
  if st.failed then st
  else
    let served := (order st.conns.keys).foldl (serveHandle ops) (st, [])
    served.2.foldl (reapHandle ops) served.1

end Flow

/-! A small concrete stack: a packet opens the first listening socket and is what the
next read returns, every byte offered is sent, and each poll emits the packets queued so
far. -/

structure TableStack where
  sockets : List TcpState
  inbox : List Bytes
  out : List Bytes
deriving DecidableEq

def openFirst : List TcpState → List TcpState
  | [] => []
  | .listen :: rest => .established :: rest
  | st :: rest => st :: openFirst rest

def tableStackOps : StackOps TableStack TcpState where
  create _ _ _ := ⟨[], [], []⟩
  pushPacket s b := { s with sockets := openFirst s.sockets, inbox := s.inbox ++ [b] }
  poll _ s := ({ s with out := [] }, s.out)
  pollDelay _ s := (s, none)
  listen s _ := ({ s with sockets := s.sockets ++ [.listen] }, s.sockets.length)
  connect s _ _ _ := ({ s with sockets := s.sockets ++ [.synSent] }, s.sockets.length)
  state s h := s.sockets.getD h .closed
  canRecv _ _ := false
  removeSocket s h := ({ s with sockets := s.sockets.set h .closed }, s.sockets.getD h .closed)
  addSocket s st := ({ s with sockets := s.sockets ++ [st] }, s.sockets.length)
  sendSlice s _ b := ({ s with out := s.out ++ [b] }, b.length)
  recvSlice s _ room := ({ s with inbox := s.inbox.drop 1 }, (s.inbox.headD []).take room)
  close s h := { s with sockets := s.sockets.set h .closed }

theorem tableStackOps_sendsAtMostOffered : tableStackOps.SendsAtMostOffered :=
  fun _ _ _ => le_rfl

end LandscapeKit.Flare
