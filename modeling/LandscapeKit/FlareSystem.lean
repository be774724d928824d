import LandscapeKit.FlareServerSeals
import LandscapeKit.FlareClientBytes

/-!
One server and any number of clients that share a master key, with the network between
them in the hands of an attacker. The attacker chooses which bytes arrive where and when;
it cannot seal under a key of the master key's schedule, so a frame that opens under such
a key was sealed by one of the parties before.
-/

namespace LandscapeKit.Flare

open Bytes

structure ClientConfig where
  clientName : String
  token : String
  user : String

/-- Where `handshake` stands: about to broadcast, waiting for the RESP, waiting for the
reply to the AUTH_REQ, or over. -/
inductive Stage
  | start
  | awaitResp
  | awaitReply
  | over
deriving DecidableEq

structure Attempt where
  serverNonce : UInt64
  clientNonce : UInt64
  authReq : Sealed
deriving DecidableEq

structure Party (S : Type) where
  sess : ClientSession
  stage : Stage
  serverMac : Mac
  attempt : Option Attempt
  loop : Option (SessionArgs × Client S)

inductive PartyAct
  /-- A new `ClientSession`, after a failed handshake or the end of a session. -/
  | restart
  | discover (discoverId : UInt64) (nonce : Nonce)
  | timeout
  | resp (src : Mac) (raw : Bytes) (clientNonce : UInt64)
  | reply (src : Mac) (raw : Bytes)
  | startLoop (now : Instant) (seed : UInt64) (forwards : List Forward) (ports : List UInt16)
  | loop (env : ClientEnv) (e : Client.Event)

/-- The effect of an act: the client after it, what it sealed, and the AUTH_REQ if one
was built. -/
structure Acted (S : Type) where
  party : Party S
  ops : List SealOp
  auth : Option Attempt

def Client.sealed {S : Type} (c : Client S) : List SealOp := c.flow.wire.filterMap OutFrame.op

namespace Party

variable {S Sock : Type} (P : Primitives) (ops : StackOps S Sock) (cfg : ClientConfig)
  (master : MasterKey)

def new : Party S := ⟨.new, .start, ⟨List.replicate 6 0, rfl⟩, none, none⟩

/-- A sealed reply counts from any source, a plaintext one only from the server that
sent the RESP. -/
def isAuthReply (p : Party S) (src : Mac) (l : Frame) : Bool :=
  (l.msgType == typeAuthAck || l.msgType == typeAuthNack) &&
    (src == p.serverMac || p.sess.authFrameAuthentic P l master)

def onDiscover (p : Party S) (discoverId : UInt64) (nonce : Nonce) : Acted S :=
  if p.stage = .start ∧ p.sess.retransmitAllowed = true then
    let token := if cfg.token = "" then none else some cfg.token
    let frame := p.sess.bumpRetry.discoverFrame P cfg.clientName token master discoverId nonce
    ⟨{ p with sess := frame.2, stage := .awaitResp, attempt := none }, [frame.1.op], none⟩
  else ⟨p, [], none⟩

def onResp (p : Party S) (src : Mac) (l : Frame) (clientNonce : UInt64) : Acted S :=
  if p.stage = .awaitResp ∧ l.msgType = typeResp then
    let answer := p.sess.onResp P l cfg.user master clientNonce
    match answer.1 with
    | none => ⟨{ p with sess := answer.2, stage := .start }, [], none⟩
    | some (_, authReq) =>
      let attempt : Attempt := ⟨toU64 (l.payload.take 8), clientNonce, authReq⟩
      ⟨{ p with
        sess := answer.2, stage := .awaitReply, serverMac := src, attempt := some attempt },
        [authReq.op], some attempt⟩
  else ⟨p, [], none⟩

def onReply (p : Party S) (src : Mac) (l : Frame) : Acted S :=
  if p.stage = .awaitReply ∧ p.isAuthReply P master src l = true then
    ⟨{ p with sess := p.sess.onAuthFrame P l master, stage := .over }, [], none⟩
  else ⟨p, [], none⟩

def onStart (p : Party S) (now : Instant) (seed : UInt64) (forwards : List Forward)
    (ports : List UInt16) : Acted S :=
  match p.loop, p.sess.phase with
  | none, .session sid keys =>
    let args : SessionArgs := ⟨p.serverMac, sid, keys, forwards, ports⟩
    ⟨{ p with loop := some (args, Client.init ops args now seed) }, [], none⟩
  | _, _ => ⟨p, [], none⟩

def onLoop (p : Party S) (env : ClientEnv) (e : Client.Event) : Acted S :=
  match p.loop with
  | none => ⟨p, [], none⟩
  | some (args, c) =>
    let c' := c.step P ops args env e
    ⟨{ p with loop := some (args, c') }, c'.sealed.drop c.sealed.length, none⟩

def act (p : Party S) (a : PartyAct) : Acted S :=
  match a with
  | .restart => ⟨Party.new, [], none⟩
  | .discover discoverId nonce => p.onDiscover P cfg master discoverId nonce
  | .timeout =>
    if p.stage = .awaitResp ∨ p.stage = .awaitReply then ⟨{ p with stage := .start }, [], none⟩
    else ⟨p, [], none⟩
  | .resp src raw clientNonce =>
    match decode raw with
    | .error _ => ⟨p, [], none⟩
    | .ok l => p.onResp P cfg master src l clientNonce
  | .reply src raw =>
    match decode raw with
    | .error _ => ⟨p, [], none⟩
    | .ok l => p.onReply P master src l
  | .startLoop now seed forwards ports => p.onStart ops now seed forwards ports
  | .loop env e => p.onLoop P ops env e

end Party

/-- All parties. `log` holds every AEAD seal in the order of the calls, `auths` every
AUTH_REQ that was built, and the last three what the clients drew. -/
structure System (S : Type) where
  server : Server S
  clients : ℕ → Party S
  log : List SealOp
  auths : List (ℕ × Attempt)
  discoverIds : List UInt64
  discoverNonces : List Nonce
  clientNonces : List UInt64

inductive SystemEvent
  | server (env : ServerEnv) (e : Server.Event)
  | client (i : ℕ) (a : PartyAct)

namespace System

variable {S Sock : Type} (P : Primitives) (ops : StackOps S Sock) (cfg : ServerConfig)
  (users : ℕ → ClientConfig) (master : MasterKey)

def init (now : Instant) : System S where
  server := Server.init now
  clients := fun _ => Party.new
  log := []
  auths := []
  discoverIds := []
  discoverNonces := []
  clientNonces := []

def serverStep (σ : System S) (env : ServerEnv) (e : Server.Event) : System S :=
  let server := σ.server.step P ops cfg master env e
  { σ with
    server := server
    log := σ.log ++ server.sealed.drop σ.server.sealed.length }

def clientStep (σ : System S) (i : ℕ) (a : PartyAct) : System S :=
  let acted := (σ.clients i).act P ops (users i) master a
  { σ with
    clients := Function.update σ.clients i acted.party
    log := σ.log ++ acted.ops
    auths := σ.auths ++ (acted.auth.map (fun x => (i, x))).toList
    discoverIds := match a with
      | .discover id _ => σ.discoverIds ++ [id]
      | _ => σ.discoverIds
    discoverNonces := match a with
      | .discover _ nonce => σ.discoverNonces ++ [nonce]
      | _ => σ.discoverNonces
    clientNonces := match a with
      | .resp _ _ nonce => σ.clientNonces ++ [nonce]
      | _ => σ.clientNonces }

def step (σ : System S) (e : SystemEvent) : System S :=
  match e with
  | .server env e => σ.serverStep P ops cfg master env e
  | .client i a => σ.clientStep P ops users master i a

def run (σ : System S) (events : List SystemEvent) : System S :=
  events.foldl (fun σ e => σ.step P ops cfg users master e) σ

end System

/-! The symbolic attacker. -/

def keyLabels : List Bytes :=
  [ofString "terrain-hkey0", ofString "terrain-hkey-c2s", ofString "terrain-hkey-s2c",
    Dir.c2s.keyLabel, Dir.s2c.keyLabel, authLabelC2S, authLabelS2C]

def CollisionFree (P : Primitives) (master : MasterKey) : Prop :=
  ∀ a ∈ keyLabels, ∀ b ∈ keyLabels, ∀ sn cn sn' cn',
    h P a master.bytes.toList sn cn = h P b master.bytes.toList sn' cn' →
      a = b ∧ sn = sn' ∧ cn = cn'

def Primitives.OpensOnlyEncrypted (P : Primitives) : Prop :=
  ∀ key nonce aad c msg, P.decrypt key nonce aad c = some msg → c = P.encrypt key nonce aad msg

def Frame.header (l : Frame) : Bytes := encodeHeader l.msgType l.sessionId l.seq l.len

/-- A frame that opens under a key of the master key was sealed before: `log` holds the
very call. The ciphertext may stand behind a prefix in clear. -/
def Unforged (P : Primitives) (master : MasterKey) (log : List SealOp) (raw : Bytes) : Prop :=
  ∀ l, decode raw = .ok l → ∀ label ∈ keyLabels, ∀ sn cn nonce cut plain,
    P.decrypt (h P label master.bytes.toList sn cn) nonce l.header (l.payload.drop cut) =
        some plain →
      (⟨h P label master.bytes.toList sn cn, nonce, l.header, plain⟩ : SealOp) ∈ log

/-- What the attacker and the random generators may do in a state: deliver any frame that
is not forged, and draw values that were not drawn before. -/
def Allowed {S : Type} (P : Primitives) (master : MasterKey) (σ : System S) :
    SystemEvent → Prop
  | .server env e => env.serverNonce ∉ σ.server.nonces ∧
      ∀ mac ifindex raw, e = .frame mac ifindex raw → Unforged P master σ.log raw
  | .client _ (.discover id nonce) => id ∉ σ.discoverIds ∧ nonce ∉ σ.discoverNonces
  | .client _ (.resp _ raw nonce) => nonce ∉ σ.clientNonces ∧ Unforged P master σ.log raw
  | .client _ (.reply _ raw) => Unforged P master σ.log raw
  | .client _ (.loop _ e) => ∀ raw, e = .frame raw → Unforged P master σ.log raw
  | .client _ _ => True

def Valid {S Sock : Type} (P : Primitives) (ops : StackOps S Sock) (cfg : ServerConfig)
    (users : ℕ → ClientConfig) (master : MasterKey) : System S → List SystemEvent → Prop
  | _, [] => True
  | σ, e :: es => Allowed P master σ e ∧
      Valid P ops cfg users master (σ.step P ops cfg users master e) es

end LandscapeKit.Flare
