import LandscapeKit.FlareCrypto

/-!
The handshake on both sides (`protocol/session.rs`). What the source draws with
`rand::random` is an argument here.
-/

namespace LandscapeKit.Flare

open Bytes

def maxRetries : ℕ := 5

def authProofC2S (P : Primitives) (master : MasterKey) (sNonce cNonce : UInt64) : Digest :=
  authProof P authLabelC2S master.bytes.toList sNonce cNonce

def authProofS2C (P : Primitives) (master : MasterKey) (sNonce cNonce : UInt64) : Digest :=
  authProof P authLabelS2C master.bytes.toList sNonce cNonce

def openDiscover (P : Primitives) (l : Frame) (master : MasterKey) :
    Option (UInt64 × String × Option String) :=
  match (PreSharedKey.derive P master).openDiscover P l with
  | none => none
  | some plain => (decodeDiscoverPayload plain).toOption

inductive ClientPhase
  | discovering (discoverId : UInt64)
  | awaitAuth (serverNonce clientNonce : UInt64) (hkey : HandshakeKeys)
  | session (sessionId : UInt32) (keys : SessionKeys)
  | rejected (reason : String)
deriving DecidableEq

structure ClientSession where
  phase : ClientPhase
  retries : ℕ
deriving DecidableEq

namespace ClientSession

def new : ClientSession := ⟨.discovering 0, 0⟩

def retransmitAllowed (c : ClientSession) : Bool := c.retries < maxRetries

def bumpRetry (c : ClientSession) : ClientSession := { c with retries := c.retries + 1 }

/-- A new attempt: a fresh discover id, sealed under a fresh 12-byte nonce. -/
def discoverFrame (P : Primitives) (c : ClientSession) (clientName : String)
    (token : Option String) (master : MasterKey) (discoverId : UInt64) (nonce : Nonce) :
    Sealed × ClientSession :=
  ((PreSharedKey.derive P master).sealDiscover P 0 nonce
      (encodeDiscoverPayload discoverId clientName token),
    { c with phase := .discovering discoverId })

/-- The RESP opens under the keys of the nonce it carries in clear and must echo
the current discover id; only then the AUTH_REQ is built. -/
def onResp (P : Primitives) (c : ClientSession) (l : Frame) (user : String) (master : MasterKey)
    (clientNonce : UInt64) : Option (Resp × Sealed) × ClientSession :=
  match c.phase with
  | .discovering discoverId =>
    if l.payload.length < 8 + tagLen then (none, c)
    else
      let serverNonce := toU64 (l.payload.take 8)
      let hkey := HandshakeKeys.derive P master serverNonce
      match hkey.openPrefixed P .s2c hsResp l 8 with
      | none => (none, c)
      | some plain =>
        match decodeRespPayload plain with
        | .error _ => (none, c)
        | .ok resp =>
          if resp.discoverId ≠ discoverId then (none, c)
          else
            let proof := authProofC2S P master serverNonce clientNonce
            let payload := encodeAuthReqPayload user clientNonce proof
            let authReq := hkey.sealFrame P .c2s typeAuthReq 0 hsAuthReq payload
            (some (resp, authReq), { c with phase := .awaitAuth serverNonce clientNonce hkey })
  | _ => (none, c)

/-- The check of an AUTH_ACK: it opens and proves knowledge of the master key. -/
def ackProven (P : Primitives) (master : MasterKey) (serverNonce clientNonce : UInt64)
    (hkey : HandshakeKeys) (l : Frame) : Bool :=
  match hkey.openFrame P .s2c hsAuthAck l with
  | none => false
  | some plain =>
    match decodeAuthAckPayload plain with
    | .error _ => false
    | .ok serverProof => ctEq serverProof (authProofS2C P master serverNonce clientNonce)

def sealedNackReason (P : Primitives) (hkey : HandshakeKeys) (l : Frame) : Option String :=
  match hkey.openFrame P .s2c hsAuthNack l with
  | none => none
  | some plain => (decodeAuthNackPayload plain).toOption

def authFrameAuthentic (P : Primitives) (c : ClientSession) (l : Frame) (master : MasterKey) :
    Bool :=
  match c.phase with
  | .awaitAuth serverNonce clientNonce hkey =>
    if l.msgType = typeAuthAck then ackProven P master serverNonce clientNonce hkey l
    else if l.msgType = typeAuthNack then (sealedNackReason P hkey l).isSome
    else false
  | _ => false

def onAuthFrame (P : Primitives) (c : ClientSession) (l : Frame) (master : MasterKey) :
    ClientSession :=
  if l.msgType = typeAuthAck then
    match c.phase with
    | .awaitAuth serverNonce clientNonce hkey =>
      if ackProven P master serverNonce clientNonce hkey l then
        { c with phase := .session l.sessionId
                  (SessionKeys.derive P master serverNonce clientNonce) }
      else { c with phase := .rejected "server authentication failed" }
    | _ => { c with phase := .rejected "server authentication failed" }
  else if l.msgType = typeAuthNack then
    match c.phase with
    | .awaitAuth _ _ hkey =>
      -- A NACK that does not open is read in clear: lockout replies may be plaintext.
      let reason := ((sealedNackReason P hkey l).orElse
        (fun _ => (decodeAuthNackPayload l.payload).toOption)).getD "unknown"
      { c with phase := .rejected reason }
    | _ => { c with phase := .rejected "unknown" }
  else c

theorem onResp_cases (P : Primitives) (c : ClientSession) (l : Frame) (user : String)
    (master : MasterKey) (clientNonce : UInt64) :
    c.onResp P l user master clientNonce = (none, c) ∨
    ∃ id sn plain resp, c.phase = .discovering id ∧ sn = toU64 (l.payload.take 8) ∧
      (HandshakeKeys.derive P master sn).openPrefixed P .s2c hsResp l 8 = some plain ∧
      decodeRespPayload plain = .ok resp ∧ resp.discoverId = id ∧
      c.onResp P l user master clientNonce =
        (some (resp, (HandshakeKeys.derive P master sn).sealFrame P .c2s typeAuthReq 0 hsAuthReq
            (encodeAuthReqPayload user clientNonce (authProofC2S P master sn clientNonce))),
          { c with phase := .awaitAuth sn clientNonce (.derive P master sn) }) := by
  simp only [onResp]
  split
  next id hphase =>
    split
    · exact Or.inl rfl
    split
    · exact Or.inl rfl
    next plain hopen =>
    split
    · exact Or.inl rfl
    next resp hdec =>
    split
    · exact Or.inl rfl
    next hid =>
      right
      exact ⟨id, _, plain, resp, hphase, rfl, hopen, hdec, not_not.mp hid, rfl⟩
  next => exact Or.inl rfl

theorem onAuthFrame_cases (P : Primitives) (c : ClientSession) (l : Frame) (master : MasterKey)
    (ht : l.msgType = typeAuthAck ∨ l.msgType = typeAuthNack) :
    (∃ sn cn hkey plain, c.phase = .awaitAuth sn cn hkey ∧
      hkey.openFrame P .s2c hsAuthAck l = some plain ∧
      decodeAuthAckPayload plain = .ok (authProofS2C P master sn cn) ∧
      c.onAuthFrame P l master =
        { c with phase := .session l.sessionId (.derive P master sn cn) }) ∨
    ∃ reason, c.onAuthFrame P l master = { c with phase := .rejected reason } := by
  unfold onAuthFrame
  split
  · split
    next sn cn hkey hphase =>
      split
      next hproven =>
        left
        unfold ackProven at hproven
        split at hproven
        · exact absurd hproven (by simp)
        next plain hopen =>
        split at hproven
        · exact absurd hproven (by simp)
        next proof hdec =>
        rw [ctEq_iff] at hproven
        exact ⟨sn, cn, hkey, plain, hphase, hopen, hproven ▸ hdec, rfl⟩
      · exact Or.inr ⟨_, rfl⟩
    · exact Or.inr ⟨_, rfl⟩
  next hack =>
    rw [if_pos (ht.resolve_left hack)]
    split
    · exact Or.inr ⟨_, rfl⟩
    · exact Or.inr ⟨_, rfl⟩

def sessionId (c : ClientSession) : Option UInt32 :=
  match c.phase with
  | .session sid _ => some sid
  | _ => none

def keys (c : ClientSession) : Option SessionKeys :=
  match c.phase with
  | .session _ keys => some keys
  | _ => none

end ClientSession

inductive VerifyResult
  | accepted (sid : UInt32) (keys : SessionKeys) (serverProof : Digest) (hkey : HandshakeKeys)
      (user : String)
  | rejected (reason : String) (hkey : HandshakeKeys)
  | unauthentic (reason : String)
deriving DecidableEq

inductive ServerPhase
  | listening
  | session (sessionId : UInt32)
deriving DecidableEq

structure PendingHandshake where
  discoverId : UInt64
  serverNonce : UInt64
deriving DecidableEq

structure ServerSession where
  phase : ServerPhase
  pending : Option PendingHandshake
  nextSessionId : UInt32
deriving DecidableEq

namespace ServerSession

def new : ServerSession := ⟨.listening, none, 1⟩

/-- The pending handshake a DISCOVER leaves behind: the standing one for the same
discover id, a new one otherwise. -/
def pendingFor (s : ServerSession) (discoverId freshNonce : UInt64) : PendingHandshake :=
  match s.pending with
  | some pending =>
    if pending.discoverId = discoverId then pending else ⟨discoverId, freshNonce⟩
  | none => ⟨discoverId, freshNonce⟩

def respFrame (P : Primitives) (master : MasterKey) (deviceName : String) (ports : List UInt16)
    (pending : PendingHandshake) : Sealed :=
  (HandshakeKeys.derive P master pending.serverNonce).sealPrefixed P .s2c typeResp 0 hsResp
    (ofU64 pending.serverNonce) (encodeRespPayload pending.discoverId deviceName ports)

def beginDiscover (P : Primitives) (s : ServerSession) (discoverId : UInt64) (deviceName : String)
    (ports : List UInt16) (master : MasterKey) (freshNonce : UInt64) : Sealed × ServerSession :=
  let pending := s.pendingFor discoverId freshNonce
  (respFrame P master deviceName ports pending, { s with pending := some pending })

def pendingDiscoverId (s : ServerSession) : Option UInt64 := s.pending.map (·.discoverId)

def takeServerNonce (s : ServerSession) : Option UInt64 × ServerSession :=
  (s.pending.map (·.serverNonce), { s with pending := none })

def verifyAuth (P : Primitives) (s : ServerSession) (l : Frame) (master : MasterKey) :
    VerifyResult × ServerSession :=
  match s.pending with
  | some pending =>
    let hkey := HandshakeKeys.derive P master pending.serverNonce
    match hkey.openFrame P .c2s hsAuthReq l with
    -- Not an auth attempt at all: the pending nonce is kept.
    | none => (.unauthentic "bad handshake frame", s)
    | some plain =>
      match decodeAuthReqPayload plain with
      | .error _ => (.unauthentic "malformed auth request", s)
      | .ok req =>
        if ctEq req.proof (authProofC2S P master pending.serverNonce req.nonce) then
          let sid := s.nextSessionId
          (.accepted sid (SessionKeys.derive P master pending.serverNonce req.nonce)
              (authProofS2C P master pending.serverNonce req.nonce) hkey req.user,
            { phase := .session sid, pending := none, nextSessionId := s.nextSessionId + 1 })
        else (.rejected "authentication failed" hkey, { s with pending := none })
  | none => (.unauthentic "no pending discovery", s)

def sessionId (s : ServerSession) : Option UInt32 :=
  match s.phase with
  | .session sid => some sid
  | .listening => none

theorem verifyAuth_cases (P : Primitives) (s : ServerSession) (l : Frame) (master : MasterKey) :
    (∃ reason, s.verifyAuth P l master = (.unauthentic reason, s)) ∨
    (∃ pending, s.pending = some pending ∧
      ∃ plain req,
        (HandshakeKeys.derive P master pending.serverNonce).openFrame P .c2s hsAuthReq l =
          some plain ∧
        decodeAuthReqPayload plain = .ok req ∧
        ((req.proof = authProofC2S P master pending.serverNonce req.nonce ∧
          s.verifyAuth P l master =
            (.accepted s.nextSessionId (.derive P master pending.serverNonce req.nonce)
                (authProofS2C P master pending.serverNonce req.nonce)
                (.derive P master pending.serverNonce) req.user,
              ⟨.session s.nextSessionId, none, s.nextSessionId + 1⟩)) ∨
        (req.proof ≠ authProofC2S P master pending.serverNonce req.nonce ∧
          s.verifyAuth P l master =
            (.rejected "authentication failed" (.derive P master pending.serverNonce),
              { s with pending := none })))) := by
  rcases hp : s.pending with _ | pending
  · left
    exact ⟨"no pending discovery", by simp only [verifyAuth, hp]⟩
  rcases ho : (HandshakeKeys.derive P master pending.serverNonce).openFrame P .c2s hsAuthReq l
    with _ | plain
  · left
    exact ⟨"bad handshake frame", by simp only [verifyAuth, hp, ho]⟩
  rcases hd : decodeAuthReqPayload plain with e | req
  · left
    exact ⟨"malformed auth request", by simp only [verifyAuth, hp, ho, hd]⟩
  right
  refine ⟨pending, rfl, plain, req, ho, hd, ?_⟩
  by_cases hc : ctEq req.proof (authProofC2S P master pending.serverNonce req.nonce) = true
  · left
    exact ⟨(ctEq_iff _ _).mp hc, by simp only [verifyAuth, hp, ho, hd, hc, if_true]⟩
  · right
    refine ⟨fun he => hc ((ctEq_iff _ _).mpr he), ?_⟩
    simp only [verifyAuth, hp, ho, hd, hc, Bool.false_eq_true, if_false]

end ServerSession

end LandscapeKit.Flare
