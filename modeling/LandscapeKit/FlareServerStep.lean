import LandscapeKit.FlareServer

/-!
The connection tasks of the server (`server_conn_task`, `relay_remote_writer`) and
the step function: one event of the loop or of a task.
-/

namespace LandscapeKit.Flare

open Bytes

inductive TaskAct
  /-- `from_rx.recv()` returns, in the header loop or in the writer. -/
  | recv
  /-- The dial, and the write of the bytes that came with the header. -/
  | dial (connected wrote : Bool)
  /-- A read of the dialed socket: data, or end of file or an error. -/
  | read (bytes : Option Bytes)
  /-- The writer's `write_all` or `shutdown` completes. -/
  | wrote (ok : Bool)
  /-- A `to_tx.send` gets its slot. -/
  | send
deriving DecidableEq

namespace Server

variable {S Sock : Type}

def senderAlive (s : Server S) (id : ConnId) : Bool :=
  s.peers.entries.any (fun e => e.2.conns.entries.any (fun c => c.2.chan == id))

def notify (s : Server S) (key : ServerConnKey) : Server S :=
  if key ∈ s.wake then s else { s with wake := s.wake ++ [key] }

def setTask (s : Server S) (id : ConnId) (t : ConnTask) : Server S :=
  { s with tasks := Function.update s.tasks id (some t) }

def dropReceiver (s : Server S) (id : ConnId) (key : ServerConnKey) : Server S :=
  { s with chans := Function.update s.chans id { s.chans id with closed := true } }.notify key

def recvFrom (s : Server S) (id : ConnId) (key : ServerConnKey) :
    Option (Option RelayMsg) × Server S :=
  match (s.chans id).queue with
  | msg :: rest =>
    (some (some msg),
      { s with chans := Function.update s.chans id { s.chans id with queue := rest } }.notify key)
  | [] => if s.senderAlive id then (none, s) else (some none, s)

/-- The header bytes collected so far decide: more of them, the dial, or a close for
a port that is not allowed. -/
def headerPhase (cfg : ServerConfig) (got : Bytes) : TaskPhase :=
  if got.length < 2 then .header got
  else
    let dst := toU16 (got.take 2)
    if dst ∈ cfg.forwardPorts then .dialing dst (got.drop 2) else .closing

def pushToRx (s : Server S) (q : Queued) : Server S := { s with toRx := s.toRx ++ [q] }

def taskStep (cfg : ServerConfig) (s : Server S) (id : ConnId) (t : ConnTask) (act : TaskAct) :
    Server S :=
  match t.phase, act with
  | .header got, .recv =>
    let received := s.recvFrom id t.key
    match received.1 with
    | none => s
    | some (some (.data b)) =>
      received.2.setTask id { t with phase := headerPhase cfg (got ++ b) }
    | some _ => received.2.setTask id { t with phase := .closing }
  | .dialing _ extra, .dial connected wrote =>
    if connected && (extra.isEmpty || wrote) then s.setTask id { t with phase := .relaying }
    else s.setTask id { t with phase := .closing }
  | .relaying, .read none => s.setTask id { t with phase := .closing }
  | .relaying, .read (some b) =>
    if 0 < b.length ∧ b.length ≤ readBufferLen then s.setTask id { t with phase := .sending b }
    else s
  | .relaying, .recv =>
    if t.writer = .waiting then
      let received := s.recvFrom id t.key
      match received.1 with
      | none => s
      | some (some (.data b)) => received.2.setTask id { t with writer := .writing b }
      | some _ => received.2.setTask id { t with writer := .shuttingDown }
    else s
  | .relaying, .wrote ok =>
    match t.writer with
    | .writing _ =>
      if ok then s.setTask id { t with writer := .waiting }
      else (s.setTask id { t with phase := .closing, writer := .finished }).dropReceiver id t.key
    | .shuttingDown =>
      -- The writer owns the receiver: it goes when the writer returns.
      if ok then (s.setTask id { t with writer := .finished }).dropReceiver id t.key
      else (s.setTask id { t with phase := .closing, writer := .finished }).dropReceiver id t.key
    | _ => s
  | .sending b, .send =>
    if s.toRx.length < toTxCapacity then
      (s.setTask id { t with phase := .relaying }).pushToRx ⟨t.key, .data b, id⟩
    else s
  | .closing, .send =>
    if s.toRx.length < toTxCapacity then
      let s := (s.setTask id { t with phase := .done, writer := .finished }).pushToRx
        ⟨t.key, .close, id⟩
      if t.writer = .finished then s else s.dropReceiver id t.key
    else s
  | _, _ => s

inductive Event
  | frame (mac : Mac) (ifindex : Int32) (raw : Bytes)
  | recvFailed
  | toRx
  | wake
  | poll
  | sweep
  | shutdown
  | task (id : ConnId) (act : TaskAct)

def step (P : Primitives) (ops : StackOps S Sock) (cfg : ServerConfig) (master : MasterKey)
    (env : ServerEnv) (s : Server S) (e : Event) : Server S :=
  match e with
  | .task id act =>
    match s.tasks id with
    | none => s
    | some t => s.taskStep cfg id t act
  | .frame mac ifindex raw =>
    if s.running then s.onFrame P ops cfg master env mac ifindex raw else s
  | .recvFailed => { s with running := false }
  | .toRx => if s.running then s.onToRx P ops env else s
  | .wake => if s.running then s.onWake P ops env else s
  | .poll => if s.running then s.onPoll P ops env else s
  | .sweep => if s.running then s.onSweep P env else s
  | .shutdown => if s.running then s.onShutdown P env else s

def run (P : Primitives) (ops : StackOps S Sock) (cfg : ServerConfig) (master : MasterKey)
    (s : Server S) (events : List (ServerEnv × Event)) : Server S :=
  events.foldl (fun s e => s.step P ops cfg master e.1 e.2) s

end Server

/-! A concrete environment and a server with one live session, for evaluation. -/

def sampleEnv (now : Instant) (serverNonce : UInt64) : ServerEnv where
  now := now
  sendOk := fun _ => true
  order := id
  macOrder := id
  serverNonce := serverNonce
  seed := 0
  order_perm := List.Perm.refl
  macOrder_perm := List.Perm.refl

def sampleConfig : ServerConfig := ⟨"", [22], ""⟩

def sampleMac : Mac := ⟨[2, 0, 0, 0, 0, 1], rfl⟩

def samplePeer : Peer TableStack :=
  { (newPeer 0 : Peer TableStack) with
    sess := ⟨.session 1, none, 2⟩
    stack := some ⟨[], [], []⟩
    crypto := some (SessionCrypto.new sampleKeys .s2c) }

def sampleServer : Server TableStack :=
  { (Server.init 0 : Server TableStack) with peers := AList.singleton sampleMac samplePeer }

/-! Frames of a client that holds the master key, over primitives without secrets. -/

def sampleP : Primitives := tablePrimitives []

def sampleNonce : Nonce := ⟨List.replicate 12 0, rfl⟩

def sampleDiscover (discoverId : UInt64) : Bytes :=
  ((PreSharedKey.derive sampleP sampleMaster).sealDiscover sampleP 0
    sampleNonce (encodeDiscoverPayload discoverId "pc" none)).raw

def sampleAuthReq (serverNonce clientNonce : UInt64) (proof : Digest) : Bytes :=
  ((HandshakeKeys.derive sampleP sampleMaster serverNonce).sealFrame sampleP .c2s typeAuthReq 0
    hsAuthReq (encodeAuthReqPayload "admin" clientNonce proof)).raw

def sampleLogin (serverNonce clientNonce : UInt64) : Bytes :=
  sampleAuthReq serverNonce clientNonce (authProofC2S sampleP sampleMaster serverNonce clientNonce)

def sampleSession (serverNonce clientNonce : UInt64) (msgs : List (UInt8 × Bytes)) : List Bytes :=
  (msgs.foldl (fun acc m =>
      let frame := acc.2.sealSession sampleP m.1 1 m.2
      (acc.1 ++ [frame.1.raw], frame.2))
    (([] : List Bytes),
      SessionCrypto.new (.derive sampleP sampleMaster serverNonce clientNonce) .c2s)).1

def sampleFrame (now : Instant) (nonce : UInt64) (raw : Bytes) : ServerEnv × Server.Event :=
  (sampleEnv now nonce, .frame sampleMac 1 raw)

end LandscapeKit.Flare
