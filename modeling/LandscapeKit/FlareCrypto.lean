import LandscapeKit.FlareFrame

/-!
Key schedule, sealed frames and the session phase (`protocol/crypto.rs`). SHA-256
and ChaCha20-Poly1305 come from other crates and are the fields of `Primitives`;
the scrypt stretch is outside as well, so everything starts from a master key.
-/

namespace LandscapeKit.Flare

open Bytes

def tagLen : ℕ := 16
def saltLen : ℕ := 8
def discoverNonceLen : ℕ := 12

abbrev Salt := List.Vector UInt8 8
abbrev Nonce := List.Vector UInt8 12

/-- The hash and the AEAD of the outside crates. A sealed message is its
ciphertext followed by a 16-byte tag. -/
structure Primitives where
  sha256 : Bytes → Digest
  encrypt : Digest → Nonce → (aad msg : Bytes) → Bytes
  decrypt : Digest → Nonce → (aad msg : Bytes) → Option Bytes
  encrypt_length : ∀ key nonce aad msg, (encrypt key nonce aad msg).length = msg.length + tagLen

/-- Decryption inverts encryption under equal key, nonce and associated data. -/
def Primitives.DecryptsEncrypted (P : Primitives) : Prop :=
  ∀ key nonce aad msg, P.decrypt key nonce aad (P.encrypt key nonce aad msg) = some msg

structure MasterKey where
  bytes : Digest
deriving DecidableEq

inductive Dir
  | c2s
  | s2c
deriving DecidableEq, Repr

namespace Dir

def keyLabel : Dir → Bytes
  | c2s => ofString "terrain-key-c2s"
  | s2c => ofString "terrain-key-s2c"

def rx : Dir → Dir
  | c2s => s2c
  | s2c => c2s

@[simp] theorem rx_rx (d : Dir) : d.rx.rx = d := by cases d <;> rfl

end Dir

def authLabelC2S : Bytes := ofString "terrain-auth-c2s"
def authLabelS2C : Bytes := ofString "terrain-auth-s2c"

/-- sha256(label || key || server_nonce || client_nonce) -/
def h (P : Primitives) (label key : Bytes) (serverNonce clientNonce : UInt64) : Digest :=
  P.sha256 (label ++ key ++ ofU64 serverNonce ++ ofU64 clientNonce)

def authProof (P : Primitives) (label key : Bytes) (serverNonce clientNonce : UInt64) : Digest :=
  h P label key serverNonce clientNonce

/-- Comparison without an early exit: the differing bits of all bytes are collected. -/
def ctEq (a b : Digest) : Bool :=
  ((a.toList.zip b.toList).foldl (fun diff xy => diff ||| (xy.1 ^^^ xy.2)) (0 : UInt8)) == 0

def hsAuthReq : UInt32 := 0
def hsAuthAck : UInt32 := 1
def hsAuthNack : UInt32 := 2
def hsResp : UInt32 := 3

/-- The arguments of one call of the AEAD. -/
structure SealOp where
  key : Digest
  nonce : Nonce
  aad : Bytes
  plain : Bytes
deriving DecidableEq

/-- A frame ready for the wire, with the AEAD call that produced its ciphertext. -/
structure Sealed where
  raw : Bytes
  op : SealOp
deriving DecidableEq

def SealOp.run (P : Primitives) (op : SealOp) : Bytes :=
  P.encrypt op.key op.nonce op.aad op.plain

theorem SealOp.run_length (P : Primitives) (op : SealOp) :
    (op.run P).length = op.plain.length + tagLen :=
  P.encrypt_length _ _ _ _

/-- `salt(8) || counter(4)`, the nonce of every frame after DISCOVER. -/
def saltNonce (salt : Salt) (counter : UInt32) : Nonce :=
  ⟨salt.toList ++ ofU32 counter, by simp⟩

theorem saltNonce_injective {s t : Salt} {c d : UInt32} (he : saltNonce s c = saltNonce t d) :
    s = t ∧ c = d := by
  have hl : s.toList ++ ofU32 c = t.toList ++ ofU32 d := congrArg Subtype.val he
  obtain ⟨hs, hc⟩ := List.append_inj hl (by simp)
  exact ⟨Subtype.ext hs, ofU32_injective hc⟩

def saltOf (d : Digest) : Salt := d.take saltLen

structure PreSharedKey where
  bytes : Digest
deriving DecidableEq

namespace PreSharedKey

def derive (P : Primitives) (master : MasterKey) : PreSharedKey :=
  ⟨h P (ofString "terrain-hkey0") master.bytes.toList 0 0⟩

/-- Sealed DISCOVER: nonce(12) || ciphertext || tag. -/
def sealDiscover (P : Primitives) (k : PreSharedKey) (sessionId : UInt32) (nonce : Nonce)
    (plaintext : Bytes) : Sealed :=
  let header := encodeHeader typeDiscover sessionId 0
    (UInt16.ofNat (discoverNonceLen + plaintext.length + tagLen))
  let op : SealOp := ⟨k.bytes, nonce, header, plaintext⟩
  ⟨header ++ nonce.toList ++ op.run P, op⟩

def openDiscover (P : Primitives) (k : PreSharedKey) (l : Frame) : Option Bytes :=
  if hl : l.payload.length < discoverNonceLen + tagLen then none
  else
    let nonce : Nonce := ⟨l.payload.take discoverNonceLen, by
      simp only [discoverNonceLen, tagLen] at hl
      simp only [List.length_take, discoverNonceLen]
      omega⟩
    let header := encodeHeader l.msgType l.sessionId l.seq l.len
    P.decrypt k.bytes nonce header (l.payload.drop discoverNonceLen)

end PreSharedKey

structure HandshakeKeys where
  c2s : Digest
  s2c : Digest
  salt : Salt
deriving DecidableEq

namespace HandshakeKeys

def derive (P : Primitives) (master : MasterKey) (serverNonce : UInt64) : HandshakeKeys where
  c2s := h P (ofString "terrain-hkey-c2s") master.bytes.toList serverNonce 0
  s2c := h P (ofString "terrain-hkey-s2c") master.bytes.toList serverNonce 0
  salt := saltOf (h P (ofString "terrain-hsalt") master.bytes.toList serverNonce 0)

def key (k : HandshakeKeys) : Dir → Digest
  | .c2s => k.c2s
  | .s2c => k.s2c

def nonce (k : HandshakeKeys) (counter : UInt32) : Nonce := saltNonce k.salt counter

def sealOp (k : HandshakeKeys) (dir : Dir) (counter : UInt32) (header plaintext : Bytes) :
    SealOp :=
  ⟨k.key dir, k.nonce counter, header, plaintext⟩

def openWith (P : Primitives) (k : HandshakeKeys) (dir : Dir) (counter : UInt32)
    (header sealed : Bytes) : Option Bytes :=
  P.decrypt (k.key dir) (k.nonce counter) header sealed

/-- A frame with a cleartext prefix before the ciphertext (RESP carries the server
nonce there). -/
def sealPrefixed (P : Primitives) (k : HandshakeKeys) (dir : Dir) (msgType : UInt8)
    (sessionId counter : UInt32) (pre plaintext : Bytes) : Sealed :=
  let header := encodeHeader msgType sessionId 0
    (UInt16.ofNat (pre.length + plaintext.length + tagLen))
  let op := k.sealOp dir counter header plaintext
  ⟨header ++ pre ++ op.run P, op⟩

def sealFrame (P : Primitives) (k : HandshakeKeys) (dir : Dir) (msgType : UInt8)
    (sessionId counter : UInt32) (plaintext : Bytes) : Sealed :=
  let header := encodeHeader msgType sessionId 0 (UInt16.ofNat (plaintext.length + tagLen))
  let op := k.sealOp dir counter header plaintext
  ⟨header ++ op.run P, op⟩

def openFrame (P : Primitives) (k : HandshakeKeys) (dir : Dir) (counter : UInt32)
    (l : Frame) : Option Bytes :=
  k.openWith P dir counter (encodeHeader l.msgType l.sessionId l.seq l.len) l.payload

def openPrefixed (P : Primitives) (k : HandshakeKeys) (dir : Dir) (counter : UInt32)
    (l : Frame) (prefixLen : ℕ) : Option Bytes :=
  if l.payload.length < prefixLen + tagLen then none
  else k.openWith P dir counter (encodeHeader l.msgType l.sessionId l.seq l.len)
    (l.payload.drop prefixLen)

end HandshakeKeys

structure SessionKeys where
  c2s : Digest
  s2c : Digest
  salt : Salt
deriving DecidableEq

namespace SessionKeys

def derive (P : Primitives) (master : MasterKey) (serverNonce clientNonce : UInt64) :
    SessionKeys where
  c2s := h P Dir.c2s.keyLabel master.bytes.toList serverNonce clientNonce
  s2c := h P Dir.s2c.keyLabel master.bytes.toList serverNonce clientNonce
  salt := saltOf (h P (ofString "terrain-salt") master.bytes.toList serverNonce clientNonce)

def key (k : SessionKeys) : Dir → Digest
  | .c2s => k.c2s
  | .s2c => k.s2c

def nonce (k : SessionKeys) (seq : UInt32) : Nonce := saltNonce k.salt seq

def sealOp (k : SessionKeys) (dir : Dir) (seq : UInt32) (header plaintext : Bytes) : SealOp :=
  ⟨k.key dir, k.nonce seq, header, plaintext⟩

def openWith (P : Primitives) (k : SessionKeys) (dir : Dir) (seq : UInt32)
    (header sealed : Bytes) : Option Bytes :=
  P.decrypt (k.key dir) (k.nonce seq) header sealed

end SessionKeys

/-- The newest sequence number seen so far in one direction. -/
structure ReplayWindow where
  last : Option UInt32
deriving DecidableEq

namespace ReplayWindow

def new : ReplayWindow := ⟨none⟩

/-- Accepts `seq` when the wrapping difference to the last number is positive as
an `i32`, and then remembers it. -/
def accept (w : ReplayWindow) (seq : UInt32) : Bool × ReplayWindow :=
  match w.last with
  | some last =>
    if (seq - last).toInt32 ≤ 0 then (false, w) else (true, ⟨some seq⟩)
  | none => (true, ⟨some seq⟩)

end ReplayWindow

structure SessionCrypto where
  keys : SessionKeys
  txDir : Dir
  txSeq : UInt32
  rx : ReplayWindow
deriving DecidableEq

namespace SessionCrypto

def new (keys : SessionKeys) (txDir : Dir) : SessionCrypto := ⟨keys, txDir, 0, .new⟩

def sealOp (c : SessionCrypto) (msgType : UInt8) (sessionId : UInt32) (payload : Bytes) : SealOp :=
  c.keys.sealOp c.txDir c.txSeq
    (encodeHeader msgType sessionId c.txSeq (UInt16.ofNat (payload.length + tagLen))) payload

/-- Builds the sealed frame and moves `tx_seq` on with `wrapping_add`. -/
def sealSession (P : Primitives) (c : SessionCrypto) (msgType : UInt8) (sessionId : UInt32)
    (payload : Bytes) : Sealed × SessionCrypto :=
  let op := c.sealOp msgType sessionId payload
  (⟨op.aad ++ op.run P, op⟩, { c with txSeq := c.txSeq + 1 })

/-- Opens under the key of the other direction; the window moves only after the
tag was verified. -/
def openSession (P : Primitives) (c : SessionCrypto) (msgType : UInt8) (sessionId seq : UInt32)
    (len : UInt16) (sealed : Bytes) : Option Bytes × SessionCrypto :=
  let header := encodeHeader msgType sessionId seq len
  match c.keys.openWith P c.txDir.rx seq header sealed with
  | none => (none, c)
  | some plain =>
    let (ok, rx) := c.rx.accept seq
    (if ok then some plain else none, { c with rx })

end SessionCrypto

/-! A small concrete instance of the primitives. The digest keeps the label and both
nonces of its input; the tag of a sealing is its place in a table. -/

def padTo (n : ℕ) (bs : Bytes) : Bytes := (bs ++ List.replicate n 0).take n

theorem padTo_length (n : ℕ) (bs : Bytes) : (padTo n bs).length = n := by
  simp [padTo]

def edgeDigest (bs : Bytes) : Digest :=
  ⟨padTo 16 bs ++ padTo 16 (bs.drop (bs.length-16)), by simp [padTo_length]⟩

def tableTag (table : List SealOp) (op : SealOp) : Bytes :=
  List.replicate tagLen (UInt8.ofNat ((table.idxOf? op).getD 255))

def tablePrimitives (table : List SealOp) : Primitives where
  sha256 := edgeDigest
  encrypt key nonce aad msg := msg ++ tableTag table ⟨key, nonce, aad, msg⟩
  decrypt key nonce aad msg :=
    let plain := msg.take (msg.length - tagLen)
    if msg = plain ++ tableTag table ⟨key, nonce, aad, plain⟩ then some plain else none
  encrypt_length _ _ _ _ := by simp [tableTag]

theorem tablePrimitives_decryptsEncrypted (table : List SealOp) :
    (tablePrimitives table).DecryptsEncrypted := by
  intro key nonce aad msg
  have hlen : (msg ++ tableTag table ⟨key, nonce, aad, msg⟩).length - tagLen = msg.length := by
    simp [tableTag]
  simp only [tablePrimitives, hlen, List.take_left, if_true]

def sampleMaster : MasterKey := ⟨edgeDigest []⟩

def sampleKeys : SessionKeys := .derive (tablePrimitives []) sampleMaster 1 2

theorem foldl_or_eq_zero_iff (xs : List (UInt8 × UInt8)) (d : UInt8) :
    xs.foldl (fun diff xy => diff ||| (xy.1 ^^^ xy.2)) d = 0 ↔
      d = 0 ∧ ∀ xy ∈ xs, xy.1 = xy.2 := by
  induction xs generalizing d with
  | nil => simp
  | cons xy xs ih =>
    rw [List.foldl_cons, ih, List.forall_mem_cons]
    have hor : d ||| (xy.1 ^^^ xy.2) = 0 ↔ d = 0 ∧ xy.1 = xy.2 := by
      simp [UInt8.or_eq_zero_iff, UInt8.xor_eq_zero_iff]
    rw [hor, and_assoc]

theorem ctEq_iff (a b : Digest) : ctEq a b = true ↔ a = b := by
  rw [ctEq, beq_iff_eq, foldl_or_eq_zero_iff]
  constructor
  · rintro ⟨-, hz⟩
    apply List.Vector.toList_injective
    apply List.ext_getElem (by simp)
    intro i hi hi'
    have hmem : (a.toList[i], b.toList[i]) ∈ a.toList.zip b.toList := by
      have hzl : i < (a.toList.zip b.toList).length := by
        rw [List.length_zip]
        omega
      simpa using List.getElem_mem hzl
    exact hz _ hmem
  · rintro rfl
    refine ⟨rfl, ?_⟩
    intro xy hxy
    obtain ⟨i, hi, rfl⟩ := List.mem_iff_getElem.mp hxy
    rw [List.getElem_zip]

end LandscapeKit.Flare
