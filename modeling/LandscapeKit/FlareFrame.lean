import Mathlib.Data.Vector.Basic
import LandscapeKit.LibBytes

/-!
The Terrain wire format: the 16-byte header and the payloads of the handshake
messages (`protocol/mod.rs`, `protocol/frame.rs`).
-/

namespace LandscapeKit.Flare

open Bytes

abbrev Digest := List.Vector UInt8 32

def magic : UInt32 := 0x54455252
def version : UInt8 := 0x05

def typeDiscover : UInt8 := 0x01
def typeResp : UInt8 := 0x02
def typeAuthReq : UInt8 := 0x03
def typeAuthAck : UInt8 := 0x04
def typeAuthNack : UInt8 := 0x05
def typeKeepalive : UInt8 := 0x06
def typeData : UInt8 := 0x07
def typeTeardown : UInt8 := 0x08
def typeVersionMismatch : UInt8 := 0x09

/-- 16-byte header: magic(4) version(1) type(1) session(4) len(2) seq(4). -/
def headerLen : ℕ := 16

inductive FrameError
  | tooShort
  | badMagic
  | badVersion
  | badPayload
  | badUtf8
deriving DecidableEq, Repr

structure Frame where
  version : UInt8
  msgType : UInt8
  sessionId : UInt32
  seq : UInt32
  len : UInt16
  payload : Bytes
deriving DecidableEq

def decode (data : Bytes) : Except FrameError Frame :=
  if data.length < headerLen then .error .tooShort
  else if toU32 (slice data 0 4) ≠ magic then .error .badMagic
  else
    let ver := data.getD 4 0
    let msgType := data.getD 5 0
    -- VERSION_MISMATCH is the one frame type accepted across versions.
    if ver ≠ version ∧ msgType ≠ typeVersionMismatch then .error .badVersion
    else
      let len := toU16 (slice data 10 2)
      if data.length < headerLen + len.toNat then .error .badPayload
      else .ok {
        version := ver
        msgType := msgType
        sessionId := toU32 (slice data 6 4)
        seq := toU32 (slice data 12 4)
        len := len
        payload := slice data headerLen len.toNat }

def encodeHeader (msgType : UInt8) (sessionId seq : UInt32) (payloadLen : UInt16) : Bytes :=
  ofU32 magic ++ [version] ++ [msgType] ++ ofU32 sessionId ++ ofU16 payloadLen ++ ofU32 seq

/-- Plaintext frames; the length field is the payload length cut to 16 bits. -/
def encode (msgType : UInt8) (sessionId seq : UInt32) (payload : Bytes) : Bytes :=
  encodeHeader msgType sessionId seq (UInt16.ofNat payload.length) ++ payload

@[simp]
theorem encodeHeader_length (t : UInt8) (sid seq : UInt32) (len : UInt16) :
    (encodeHeader t sid seq len).length = headerLen := by
  simp [encodeHeader, headerLen]

/-- What `decode` reads from a buffer that starts with an encoded header. Whatever
follows the announced payload, such as link padding, is not looked at. -/
theorem decode_encodeHeader_append (t : UInt8) (sid seq : UInt32) (len : UInt16)
    (body : Bytes) (hlen : len.toNat ≤ body.length) :
    decode (encodeHeader t sid seq len ++ body) = .ok {
      version := version, msgType := t, sessionId := sid, seq := seq, len := len,
      payload := body.take len.toNat } := by
  have hm : slice (encodeHeader t sid seq len ++ body) 0 4 = ofU32 magic := by
    simpa [encodeHeader] using slice_middle [] (ofU32 magic)
      ([version, t] ++ ofU32 sid ++ ofU16 len ++ ofU32 seq ++ body) 0 4 rfl (by simp)
  have hs : slice (encodeHeader t sid seq len ++ body) 6 4 = ofU32 sid := by
    simpa [encodeHeader] using slice_middle (ofU32 magic ++ [version, t]) (ofU32 sid)
      (ofU16 len ++ ofU32 seq ++ body) 6 4 (by simp) (by simp)
  have hl : slice (encodeHeader t sid seq len ++ body) 10 2 = ofU16 len := by
    simpa [encodeHeader] using slice_middle (ofU32 magic ++ [version, t] ++ ofU32 sid)
      (ofU16 len) (ofU32 seq ++ body) 10 2 (by simp) (by simp)
  have hq : slice (encodeHeader t sid seq len ++ body) 12 4 = ofU32 seq := by
    simpa [encodeHeader] using slice_middle (ofU32 magic ++ [version, t] ++ ofU32 sid ++ ofU16 len)
      (ofU32 seq) body 12 4 (by simp) (by simp)
  have hp : slice (encodeHeader t sid seq len ++ body) headerLen len.toNat =
      body.take len.toNat := by
    have hh := slice_middle (encodeHeader t sid seq len) (body.take len.toNat)
      (body.drop len.toNat) headerLen len.toNat (encodeHeader_length t sid seq len)
      (List.length_take_of_le hlen)
    rwa [List.take_append_drop] at hh
  have hv : (encodeHeader t sid seq len ++ body).getD 4 0 = version := by
    simp [encodeHeader, List.getD_eq_getElem?_getD]
  have ht : (encodeHeader t sid seq len ++ body).getD 5 0 = t := by
    simp [encodeHeader, List.getD_eq_getElem?_getD, List.getElem?_append]
  have hle : (encodeHeader t sid seq len ++ body).length = headerLen + body.length := by
    rw [List.length_append, encodeHeader_length]
  have hshort : ¬ headerLen + body.length < headerLen := by omega
  have hbad : ¬ headerLen + body.length < headerLen + len.toNat := by omega
  simp only [decode, hm, hs, hl, hq, hp, hv, ht, hle, toU32_ofU32, toU16_ofU16, hshort, hbad,
    if_false, ne_eq, not_true_eq_false, false_and]

/-! Payload fields. The readers carry the offset the source keeps in `off`. -/

def putStr (s : String) : Bytes := ofU16 (UInt16.ofNat (ofString s).length) ++ ofString s

def getStr (data : Bytes) (off : ℕ) : Except FrameError (String × ℕ) :=
  if data.length < off+2 then .error .badPayload
  else
    let len := (toU16 (slice data off 2)).toNat
    if data.length < off+2+len then .error .badPayload
    else match toString? (slice data (off+2) len) with
      | none => .error .badUtf8
      | some s => .ok (s, off+2+len)

def putU64 (v : UInt64) : Bytes := ofU64 v

def getU64 (data : Bytes) (off : ℕ) : Except FrameError (UInt64 × ℕ) :=
  if data.length < off+8 then .error .badPayload
  else .ok (toU64 (slice data off 8), off+8)

def encodeDiscoverPayload (discoverId : UInt64) (clientName : String)
    (token : Option String) : Bytes :=
  putU64 discoverId ++ putStr clientName ++
    match token.filter (fun t => t ≠ "") with
    | some t => putStr t
    | none => []

def decodeDiscoverPayload (payload : Bytes) :
    Except FrameError (UInt64 × String × Option String) := do
  let (discoverId, off) ← getU64 payload 0
  let (name, off) ← getStr payload off
  if off < payload.length then
    let (token, _) ← getStr payload off
    return (discoverId, name, some token)
  else
    return (discoverId, name, none)

structure Resp where
  discoverId : UInt64
  deviceName : String
  ports : List UInt16
deriving DecidableEq

def encodeRespPayload (discoverId : UInt64) (deviceName : String) (ports : List UInt16) : Bytes :=
  putU64 discoverId ++ putStr deviceName ++ ports.flatMap ofU16

/-- The `while off + 2 <= payload.len()` loop of the port list, and the check that
no odd byte is left over. -/
def decodePorts : Bytes → Except FrameError (List UInt16)
  | [] => .ok []
  | [_] => .error .badPayload
  | hi :: lo :: rest => do
    let ports ← decodePorts rest
    return toU16 [hi, lo] :: ports

def decodeRespPayload (payload : Bytes) : Except FrameError Resp := do
  let (discoverId, off) ← getU64 payload 0
  let (deviceName, off) ← getStr payload off
  let ports ← decodePorts (payload.drop off)
  return { discoverId, deviceName, ports }

structure AuthReq where
  user : String
  nonce : UInt64
  proof : Digest
deriving DecidableEq

def encodeAuthReqPayload (user : String) (nonce : UInt64) (proof : Digest) : Bytes :=
  putStr user ++ putU64 nonce ++ proof.toList

def decodeDigest (data : Bytes) : Except FrameError Digest :=
  if h : data.length = 32 then .ok ⟨data, h⟩ else .error .badPayload

def decodeAuthReqPayload (payload : Bytes) : Except FrameError AuthReq := do
  let (user, off) ← getStr payload 0
  let (nonce, off) ← getU64 payload off
  if payload.length < off+32 then throw .badPayload
  let proof ← decodeDigest (slice payload off 32)
  return { user, nonce, proof }

def encodeAuthAckPayload (serverProof : Digest) : Bytes := serverProof.toList

def decodeAuthAckPayload (payload : Bytes) : Except FrameError Digest := decodeDigest payload

def encodeAuthNack (reason : String) : Bytes := encode typeAuthNack 0 0 (putStr reason)

def encodeVersionMismatch : Bytes := encode typeVersionMismatch 0 0 []

def encodeAuthNackPayload (reason : String) : Bytes := putStr reason

def decodeAuthNackPayload (payload : Bytes) : Except FrameError String := do
  let (reason, _) ← getStr payload 0
  return reason

theorem getStr_putStr (as cs : Bytes) (s : String) (off : ℕ) (ha : as.length = off)
    (hs : (ofString s).length < 2^16) :
    getStr (as ++ (putStr s ++ cs)) off = .ok (s, off + 2 + (ofString s).length) := by
  have hn : (UInt16.ofNat (ofString s).length).toNat = (ofString s).length :=
    UInt16.toNat_ofNat_of_lt' hs
  have hlen : slice (as ++ (putStr s ++ cs)) off 2 = ofU16 (UInt16.ofNat (ofString s).length) := by
    simpa [putStr] using slice_middle as (ofU16 (UInt16.ofNat (ofString s).length))
      (ofString s ++ cs) off 2 ha (by simp)
  have hbody : slice (as ++ (putStr s ++ cs)) (off+2) (ofString s).length = ofString s := by
    simpa [putStr] using slice_middle (as ++ ofU16 (UInt16.ofNat (ofString s).length))
      (ofString s) cs (off+2) _ (by simp [ha]) rfl
  have htotal : (as ++ (putStr s ++ cs)).length = off + (2 + (ofString s).length + cs.length) := by
    simp [putStr, ha, Nat.add_assoc]
  have h1 : ¬ (as ++ (putStr s ++ cs)).length < off+2 := by omega
  have h2 : ¬ (as ++ (putStr s ++ cs)).length < off+2+(ofString s).length := by omega
  simp only [getStr, h1, hlen, toU16_ofU16, hn, h2, hbody, toString?_ofString, if_false]

theorem getU64_putU64 (as cs : Bytes) (v : UInt64) (off : ℕ) (ha : as.length = off) :
    getU64 (as ++ (putU64 v ++ cs)) off = .ok (v, off+8) := by
  have hv : slice (as ++ (putU64 v ++ cs)) off 8 = ofU64 v :=
    slice_middle as (ofU64 v) cs off 8 ha (by simp)
  have h1 : ¬ (as ++ (putU64 v ++ cs)).length < off+8 := by
    simp only [putU64, List.length_append, ofU64_length, ha]
    omega
  simp only [getU64, h1, hv, toU64_ofU64, if_false]

theorem decodePorts_flatMap (ports : List UInt16) :
    decodePorts (ports.flatMap ofU16) = .ok ports := by
  induction ports with
  | nil => rfl
  | cons p ps ih =>
    obtain ⟨hi, lo, hp⟩ : ∃ hi lo, ofU16 p = [hi, lo] :=
      List.length_eq_two.mp (ofU16_length p)
    rw [List.flatMap_cons, hp]
    change (do let ports ← decodePorts (ps.flatMap ofU16); .ok (toU16 [hi, lo] :: ports)) = _
    rw [ih, ← hp, toU16_ofU16]
    rfl

theorem decodeDiscoverPayload_encode (id : UInt64) (name : String) (token : Option String)
    (hn : (ofString name).length < 2^16)
    (ht : ∀ t ∈ token, (ofString t).length < 2^16) :
    decodeDiscoverPayload (encodeDiscoverPayload id name token) =
      .ok (id, name, token.filter (fun t => t ≠ "")) := by
  rcases htok : token.filter (fun t => t ≠ "") with _ | t
  · have hp : encodeDiscoverPayload id name token = putU64 id ++ (putStr name ++ []) := by
      simp only [encodeDiscoverPayload, htok, List.append_assoc]
    have h0 := getU64_putU64 [] (putStr name ++ []) id 0 rfl
    have h1 := getStr_putStr (putU64 id) [] name 8 (by simp [putU64]) hn
    have h2 : ¬ 8+2+(ofString name).length < (putU64 id ++ (putStr name ++ [])).length := by
      simp only [putU64, putStr, List.length_append, ofU64_length, ofU16_length,
        List.length_nil]
      omega
    rw [List.nil_append] at h0
    simp only [decodeDiscoverPayload, hp, h0, h1, h2, bind, Except.bind, if_false, pure,
      Except.pure]
  · have hmem : t ∈ token ∧ t ≠ "" := by
      simpa [Option.filter_eq_some_iff] using htok
    have hp : encodeDiscoverPayload id name token =
        putU64 id ++ (putStr name ++ putStr t) := by
      simp only [encodeDiscoverPayload, htok, List.append_assoc]
    have h0 := getU64_putU64 [] (putStr name ++ putStr t) id 0 rfl
    have h1 := getStr_putStr (putU64 id) (putStr t) name 8 (by simp [putU64]) hn
    have h2 : 8+2+(ofString name).length < (putU64 id ++ (putStr name ++ putStr t)).length := by
      simp only [putU64, putStr, List.length_append, ofU64_length, ofU16_length]
      omega
    have h3 := getStr_putStr (putU64 id ++ putStr name) [] t (8+2+(ofString name).length)
      (by simp only [putU64, putStr, List.length_append, ofU64_length, ofU16_length]; omega)
      (ht t hmem.1)
    rw [List.nil_append] at h0
    rw [List.append_nil, List.append_assoc] at h3
    simp only [decodeDiscoverPayload, hp, h0, h1, h2, h3, bind, Except.bind, if_true, pure,
      Except.pure]

theorem decodeRespPayload_encode (id : UInt64) (name : String) (ports : List UInt16)
    (hn : (ofString name).length < 2^16) :
    decodeRespPayload (encodeRespPayload id name ports) = .ok ⟨id, name, ports⟩ := by
  have h0 := getU64_putU64 [] (putStr name ++ ports.flatMap ofU16) id 0 rfl
  have h1 := getStr_putStr (putU64 id) (ports.flatMap ofU16) name 8 (by simp [putU64]) hn
  have h2 : (putU64 id ++ (putStr name ++ ports.flatMap ofU16)).drop
      (8+2+(ofString name).length) = ports.flatMap ofU16 := by
    rw [← List.append_assoc]
    apply List.drop_left'
    simp only [putU64, putStr, List.length_append, ofU64_length, ofU16_length]
    omega
  rw [List.nil_append] at h0
  simp only [decodeRespPayload, encodeRespPayload, List.append_assoc, h0, h1, h2,
    decodePorts_flatMap, bind, Except.bind, pure, Except.pure]

theorem decodeDigest_toList (d : Digest) : decodeDigest d.toList = .ok d := by
  rw [decodeDigest, dif_pos d.toList_length]
  rfl

theorem decodeAuthReqPayload_encode (user : String) (nonce : UInt64) (proof : Digest)
    (hu : (ofString user).length < 2^16) :
    decodeAuthReqPayload (encodeAuthReqPayload user nonce proof) = .ok ⟨user, nonce, proof⟩ := by
  have h0 := getStr_putStr [] (putU64 nonce ++ proof.toList) user 0 rfl hu
  have h1 := getU64_putU64 (putStr user) proof.toList nonce (0+2+(ofString user).length)
    (by simp [putStr])
  have h2 : ¬ (putStr user ++ (putU64 nonce ++ proof.toList)).length <
      0+2+(ofString user).length+8+32 := by
    simp only [putU64, putStr, List.length_append, ofU64_length, ofU16_length,
      List.Vector.toList_length]
    omega
  have h3 : slice (putStr user ++ (putU64 nonce ++ proof.toList))
      (0+2+(ofString user).length+8) 32 = proof.toList := by
    simpa using slice_middle (putStr user ++ putU64 nonce) proof.toList []
      (0+2+(ofString user).length+8) 32 (by simp [putStr, putU64, Nat.add_assoc]) proof.toList_length
  rw [List.nil_append] at h0
  simp only [decodeAuthReqPayload, encodeAuthReqPayload, List.append_assoc, h0, h1, h2, h3,
    decodeDigest_toList, bind, Except.bind, if_false, pure, Except.pure]

theorem decodeAuthNackPayload_encode (reason : String) (hr : (ofString reason).length < 2^16) :
    decodeAuthNackPayload (encodeAuthNackPayload reason) = .ok reason := by
  have h0 := getStr_putStr [] [] reason 0 rfl hr
  rw [List.nil_append, List.append_nil] at h0
  simp only [decodeAuthNackPayload, encodeAuthNackPayload, h0, bind, Except.bind, pure,
    Except.pure]

end LandscapeKit.Flare
