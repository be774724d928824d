import Mathlib.Data.List.Induction
import LandscapeKit.FlareFrame

/-!
The payload decoders on arbitrary bytes. `FlareFrame` reads with total slices; here every
`data[i]` and `data[i..j]` of `protocol/frame.rs` is an index that may be out of range, and
the decoders are shown never to use one that is.
-/

namespace LandscapeKit.Bytes

theorem beBytes_beNat (bs : Bytes) : beBytes bs.length (beNat bs) = bs := by
  induction bs using List.reverseRecOn with
  | nil => rfl
  | append_singleton bs b ih =>
    have hb : b.toNat < 256 := b.toNat_lt
    have hdiv : (beNat bs * 256 + b.toNat) / 256 = beNat bs := by omega
    have hlow : UInt8.ofNat (beNat bs * 256 + b.toNat) = b := by
      apply UInt8.toNat_inj.mp
      rw [UInt8.toNat_ofNat']
      omega
    rw [beNat_append_singleton, List.length_append, List.length_singleton, beBytes, hdiv, ih, hlow]

theorem beNat_lt (bs : Bytes) : beNat bs < 256 ^ bs.length := by
  induction bs using List.reverseRecOn with
  | nil => exact Nat.one_pos
  | append_singleton bs b ih =>
    have hb : b.toNat < 256 := b.toNat_lt
    rw [beNat_append_singleton, List.length_append, List.length_singleton, pow_succ]
    omega

theorem ofU16_toU16 {bs : Bytes} (h : bs.length = 2) : ofU16 (toU16 bs) = bs := by
  have hlt : beNat bs < 2 ^ 16 := by
    have := beNat_lt bs
    rwa [h] at this
  have hn : (toU16 bs).toNat = beNat bs := UInt16.toNat_ofNat_of_lt' hlt
  rw [ofU16, hn, ← h, beBytes_beNat]

theorem ofU64_toU64 {bs : Bytes} (h : bs.length = 8) : ofU64 (toU64 bs) = bs := by
  have hlt : beNat bs < 2 ^ 64 := by
    have := beNat_lt bs
    rwa [h] at this
  have hn : (toU64 bs).toNat = beNat bs := UInt64.toNat_ofNat_of_lt' hlt
  rw [ofU64, hn, ← h, beBytes_beNat]

theorem ofString_of_toString? {bs : Bytes} {s : String} (h : toString? bs = some s) :
    ofString s = bs := by
  unfold toString? String.fromUTF8? at h
  split at h
  · rw [Option.some_inj] at h
    rw [← h]
    simp [ofString, String.fromUTF8]
  · exact absurd h (by simp)

theorem drop_eq_slice_append {bs : Bytes} (off len : ℕ) :
    bs.drop off = slice bs off len ++ bs.drop (off + len) := by
  rw [slice, ← List.drop_drop, List.take_append_drop]

end LandscapeKit.Bytes

namespace LandscapeKit.Flare

open Bytes

theorem getU64_sound {data : Bytes} {off off' : ℕ} {v : UInt64}
    (h : getU64 data off = .ok (v, off')) :
    off' ≤ data.length ∧ data.drop off = putU64 v ++ data.drop off' := by
  unfold getU64 at h
  split at h
  · exact absurd h (by simp)
  · rename_i hlen
    simp only [Except.ok.injEq, Prod.mk.injEq] at h
    obtain ⟨rfl, rfl⟩ := h
    have hs : (slice data off 8).length = 8 := slice_length (by omega)
    refine ⟨by omega, ?_⟩
    rw [putU64, ofU64_toU64 hs, ← drop_eq_slice_append]

theorem getStr_sound {data : Bytes} {off off' : ℕ} {s : String}
    (h : getStr data off = .ok (s, off')) :
    off' ≤ data.length ∧ data.drop off = putStr s ++ data.drop off' := by
  unfold getStr at h
  split at h
  · exact absurd h (by simp)
  · rename_i hlen
    simp only at h
    split at h
    · exact absurd h (by simp)
    · rename_i hbody
      split at h
      · exact absurd h (by simp)
      · rename_i text htext
        simp only [Except.ok.injEq, Prod.mk.injEq] at h
        obtain ⟨rfl, rfl⟩ := h
        have hs : (slice data off 2).length = 2 := slice_length (by omega)
        have hb : (slice data (off+2) (toU16 (slice data off 2)).toNat).length =
            (toU16 (slice data off 2)).toNat := slice_length (by omega)
        refine ⟨by omega, ?_⟩
        -- the length field is the length of the text that was read
        rw [putStr, ofString_of_toString? htext, hb, UInt16.ofNat_toNat, ofU16_toU16 hs,
          List.append_assoc, ← drop_eq_slice_append, ← drop_eq_slice_append]

theorem decodePorts_sound {bs : Bytes} {ports : List UInt16} (h : decodePorts bs = .ok ports) :
    bs = ports.flatMap ofU16 := by
  induction bs using decodePorts.induct generalizing ports with
  | case1 =>
    simp only [decodePorts, Except.ok.injEq] at h
    rw [← h, List.flatMap_nil]
  | case2 b => exact absurd h (by simp [decodePorts])
  | case3 hi lo rest ih =>
    rcases hr : decodePorts rest with e | ps
    · simp only [decodePorts, hr, bind, Except.bind] at h
      exact absurd h (by simp)
    · simp only [decodePorts, hr, bind, Except.bind, pure, Except.pure, Except.ok.injEq] at h
      rw [← h, List.flatMap_cons, ← ih hr, ofU16_toU16 rfl]
      rfl

theorem encode_of_decodeRespPayload {b : Bytes} {r : Resp} (h : decodeRespPayload b = .ok r) :
    encodeRespPayload r.discoverId r.deviceName r.ports = b := by
  rcases h0 : getU64 b 0 with e | ⟨id, off0⟩
  · simp only [decodeRespPayload, h0, bind, Except.bind] at h
    exact absurd h (by simp)
  rcases h1 : getStr b off0 with e | ⟨name, off1⟩
  · simp only [decodeRespPayload, h0, h1, bind, Except.bind] at h
    exact absurd h (by simp)
  rcases h2 : decodePorts (b.drop off1) with e | ports
  · simp only [decodeRespPayload, h0, h1, h2, bind, Except.bind] at h
    exact absurd h (by simp)
  simp only [decodeRespPayload, h0, h1, h2, bind, Except.bind, pure, Except.pure,
    Except.ok.injEq] at h
  rw [← h]
  have hb := (getU64_sound h0).2
  rw [List.drop_zero] at hb
  rw [encodeRespPayload, ← decodePorts_sound h2, List.append_assoc, ← (getStr_sound h1).2, ← hb]

theorem encode_of_decodeAuthAckPayload {b : Bytes} {d : Digest}
    (h : decodeAuthAckPayload b = .ok d) : encodeAuthAckPayload d = b := by
  by_cases hlen : b.length = 32
  · rw [decodeAuthAckPayload, decodeDigest, dif_pos hlen] at h
    have hd : (⟨b, hlen⟩ : Digest) = d := Except.ok.inj h
    rw [← hd]
    exact List.Vector.toList_mk b hlen
  · rw [decodeAuthAckPayload, decodeDigest, dif_neg hlen] at h
    exact absurd h (by simp)

/-! The decoders as the source runs them, with an outcome of their own for an index that is
out of range. -/

inductive Reading (α : Type)
  | value (a : α)
  | bad (e : FrameError)
  | outOfRange

namespace Reading

def bind {α β : Type} (x : Reading α) (f : α → Reading β) : Reading β :=
  match x with
  | .value a => f a
  | .bad e => .bad e
  | .outOfRange => .outOfRange

instance : Monad Reading where
  pure := .value
  bind := Reading.bind

def ofExcept {α : Type} : Except FrameError α → Reading α
  | .ok a => .value a
  | .error e => .bad e

theorem ofExcept_ne_outOfRange {α : Type} (x : Except FrameError α) :
    ofExcept x ≠ .outOfRange := by
  cases x <;> simp only [ofExcept, ne_eq, reduceCtorEq, not_false_eq_true]

theorem ofExcept_eq_value {α : Type} {x : Except FrameError α} {a : α} :
    ofExcept x = .value a ↔ x = .ok a := by
  cases x with
  | ok b => simp only [ofExcept, Reading.value.injEq, Except.ok.injEq]
  | error e => simp only [ofExcept, reduceCtorEq]

end Reading

namespace Indexed

def index (data : Bytes) (i : ℕ) : Reading UInt8 :=
  match data[i]? with
  | some b => .value b
  | none => .outOfRange

/-- `data[i..j]`. -/
def range (data : Bytes) (i j : ℕ) : Reading Bytes :=
  if i ≤ j ∧ j ≤ data.length then .value (slice data i (j-i)) else .outOfRange

/-- `copy_from_slice` into a 32-byte array, which insists on equal lengths. -/
def copyDigest (bs : Bytes) : Reading Digest :=
  if h : bs.length = 32 then .value ⟨bs, h⟩ else .outOfRange

def getStr (data : Bytes) (off : ℕ) : Reading (String × ℕ) :=
  if off+2 > data.length then .bad .badPayload
  else do
    let hi ← index data off
    let lo ← index data (off+1)
    let len := (toU16 [hi, lo]).toNat
    let off := off+2
    if off+len > data.length then .bad .badPayload
    else do
      let text ← range data off (off+len)
      match toString? text with
      | none => .bad .badUtf8
      | some s => .value (s, off+len)

def getU64 (data : Bytes) (off : ℕ) : Reading (UInt64 × ℕ) :=
  if off+8 > data.length then .bad .badPayload
  else do
    let bytes ← range data off (off+8)
    .value (toU64 bytes, off+8)

def decodeDiscoverPayload (payload : Bytes) : Reading (UInt64 × String × Option String) := do
  let (discoverId, off) ← getU64 payload 0
  let (name, off) ← getStr payload off
  if off < payload.length then do
    let (token, _) ← getStr payload off
    .value (discoverId, name, some token)
  else .value (discoverId, name, none)

/-- `while off + 2 <= payload.len()`, with the offset the loop stops at. -/
def portLoop (payload : Bytes) (off : ℕ) : Reading (List UInt16 × ℕ) :=
  if off+2 ≤ payload.length then do
    let hi ← index payload off
    let lo ← index payload (off+1)
    let (ports, last) ← portLoop payload (off+2)
    .value (toU16 [hi, lo] :: ports, last)
  else .value ([], off)
termination_by payload.length - off

def decodeRespPayload (payload : Bytes) : Reading Resp := do
  let (discoverId, off) ← getU64 payload 0
  let (deviceName, off) ← getStr payload off
  let (ports, off) ← portLoop payload off
  if off ≠ payload.length then .bad .badPayload
  else .value { discoverId, deviceName, ports }

def decodeAuthReqPayload (payload : Bytes) : Reading AuthReq := do
  let (user, off) ← getStr payload 0
  let (nonce, off) ← getU64 payload off
  if off+32 > payload.length then .bad .badPayload
  else do
    let tail ← range payload off (off+32)
    let proof ← copyDigest tail
    .value { user, nonce, proof }

def decodeAuthAckPayload (payload : Bytes) : Reading Digest :=
  if payload.length ≠ 32 then .bad .badPayload else copyDigest payload

def decodeAuthNackPayload (payload : Bytes) : Reading String := do
  let (reason, _) ← getStr payload 0
  .value reason

theorem index_of_lt {data : Bytes} {i : ℕ} (h : i < data.length) :
    index data i = .value (data.get ⟨i, h⟩) := by
  simp only [index, List.getElem?_eq_getElem h, List.get_eq_getElem]

theorem slice_two {data : Bytes} {off : ℕ} (h : off+1 < data.length) :
    slice data off 2 = [data.get ⟨off, by omega⟩, data.get ⟨off+1, h⟩] := by
  rw [slice, List.drop_eq_getElem_cons (by omega), List.drop_eq_getElem_cons h]
  rfl

theorem range_of_le {data : Bytes} {off len : ℕ} (h : off+len ≤ data.length) :
    range data off (off+len) = .value (slice data off len) := by
  rw [range, if_pos ⟨by omega, h⟩, Nat.add_sub_cancel_left]

theorem getStr_eq (data : Bytes) (off : ℕ) :
    getStr data off = Reading.ofExcept (Flare.getStr data off) := by
  unfold getStr Flare.getStr
  by_cases h : data.length < off+2
  · rw [if_pos h, if_pos h]
    rfl
  · have h1 : off+1 < data.length := by omega
    rw [if_neg h, if_neg h, index_of_lt (by omega), index_of_lt (by omega), slice_two h1]
    -- both bytes of the length field are there; what is left is the test on the text
    simp only [bind, Reading.bind]
    split
    · rfl
    · rw [range_of_le (by omega)]
      simp only
      split <;> simp_all [Reading.ofExcept]

theorem getU64_eq (data : Bytes) (off : ℕ) :
    getU64 data off = Reading.ofExcept (Flare.getU64 data off) := by
  unfold getU64 Flare.getU64
  by_cases h : data.length < off+8
  · rw [if_pos h, if_pos h]
    rfl
  · rw [if_neg h, if_neg h, range_of_le (by omega)]
    rfl

theorem portLoop_spec (payload : Bytes) (off : ℕ) (h : off ≤ payload.length) :
    ∃ ports last, portLoop payload off = .value (ports, last) ∧
      Flare.decodePorts (payload.drop off) =
        if last = payload.length then .ok ports else .error .badPayload := by
  induction off using portLoop.induct payload with
  | case1 off hlt ih =>
    obtain ⟨ports, last, hloop, hdec⟩ := ih hlt
    refine ⟨toU16 [payload.get ⟨off, by omega⟩, payload.get ⟨off+1, by omega⟩] :: ports,
      last, ?_, ?_⟩
    · rw [portLoop, if_pos hlt, index_of_lt (by omega), index_of_lt (by omega), hloop]
      rfl
    · have hdrop : payload.drop off = payload.get ⟨off, by omega⟩ ::
          payload.get ⟨off+1, by omega⟩ :: payload.drop (off+2) := by
        rw [List.drop_eq_getElem_cons (by omega), List.drop_eq_getElem_cons (by omega)]
        rfl
      rw [hdrop, Flare.decodePorts, hdec]
      split <;> rfl
  | case2 off hlt =>
    refine ⟨[], off, by rw [portLoop, if_neg hlt], ?_⟩
    by_cases he : off = payload.length
    · rw [if_pos he, he, List.drop_length]
      rfl
    · obtain ⟨b, hb⟩ : ∃ b, payload.drop off = [b] :=
        List.length_eq_one_iff.mp (by rw [List.length_drop]; omega)
      rw [if_neg he, hb]
      rfl

theorem decodeDiscoverPayload_eq (b : Bytes) :
    decodeDiscoverPayload b = Reading.ofExcept (Flare.decodeDiscoverPayload b) := by
  unfold decodeDiscoverPayload Flare.decodeDiscoverPayload
  simp only [getU64_eq, getStr_eq]
  rcases Flare.getU64 b 0 with e | ⟨id, off0⟩
  · rfl
  rcases h1 : Flare.getStr b off0 with e | ⟨name, off1⟩
  · simp only [Reading.ofExcept, bind, Reading.bind, Except.bind, h1]
  by_cases hlt : off1 < b.length
  · rcases h2 : Flare.getStr b off1 with e | ⟨token, off2⟩ <;>
      simp only [Reading.ofExcept, bind, Reading.bind, Except.bind, h1, h2, hlt, if_true, pure,
        Except.pure]
  · simp only [Reading.ofExcept, bind, Reading.bind, Except.bind, h1, hlt, if_false, pure,
      Except.pure]

theorem decodeRespPayload_eq (b : Bytes) :
    decodeRespPayload b = Reading.ofExcept (Flare.decodeRespPayload b) := by
  unfold decodeRespPayload Flare.decodeRespPayload
  simp only [getU64_eq, getStr_eq]
  rcases Flare.getU64 b 0 with e | ⟨id, off0⟩
  · rfl
  rcases h1 : Flare.getStr b off0 with e | ⟨name, off1⟩
  · simp only [Reading.ofExcept, bind, Reading.bind, Except.bind, h1]
  obtain ⟨ports, last, hloop, hdec⟩ := portLoop_spec b off1 (getStr_sound h1).1
  by_cases he : last = b.length
  · rw [if_pos he] at hdec
    simp only [Reading.ofExcept, bind, Reading.bind, Except.bind, h1, hloop, hdec, he, ne_eq,
      not_true_eq_false, if_false, pure, Except.pure]
  · rw [if_neg he] at hdec
    simp only [Reading.ofExcept, bind, Reading.bind, Except.bind, h1, hloop, hdec, he, ne_eq,
      not_false_eq_true, if_true]

theorem decodeAuthReqPayload_eq (b : Bytes) :
    decodeAuthReqPayload b = Reading.ofExcept (Flare.decodeAuthReqPayload b) := by
  unfold decodeAuthReqPayload Flare.decodeAuthReqPayload
  simp only [getU64_eq, getStr_eq]
  rcases Flare.getStr b 0 with e | ⟨user, off0⟩
  · rfl
  rcases h1 : Flare.getU64 b off0 with e | ⟨nonce, off1⟩
  · simp only [Reading.ofExcept, bind, Reading.bind, Except.bind, h1]
  by_cases hlt : b.length < off1+32
  · simp only [Reading.ofExcept, bind, Reading.bind, Except.bind, h1, hlt, if_true,
      throw, throwThe, MonadExceptOf.throw]
  · have hs : (slice b off1 32).length = 32 := slice_length (by omega)
    have hr : range b off1 (off1+32) = .value (slice b off1 32) := range_of_le (by omega)
    have hc : copyDigest (slice b off1 32) = .value ⟨slice b off1 32, hs⟩ := dif_pos hs
    have hd : decodeDigest (slice b off1 32) = .ok ⟨slice b off1 32, hs⟩ := dif_pos hs
    simp only [Reading.ofExcept, bind, Reading.bind, Except.bind, h1, hlt, if_false,
      hr, hc, hd, pure, Except.pure]

theorem decodeAuthAckPayload_eq (b : Bytes) :
    decodeAuthAckPayload b = Reading.ofExcept (Flare.decodeAuthAckPayload b) := by
  unfold decodeAuthAckPayload copyDigest Flare.decodeAuthAckPayload decodeDigest
  by_cases h : b.length = 32
  · rw [if_neg (not_not_intro h), dif_pos h, dif_pos h]
    rfl
  · rw [if_pos h, dif_neg h]
    rfl

theorem decodeAuthNackPayload_eq (b : Bytes) :
    decodeAuthNackPayload b = Reading.ofExcept (Flare.decodeAuthNackPayload b) := by
  unfold decodeAuthNackPayload Flare.decodeAuthNackPayload
  rw [getStr_eq]
  rcases Flare.getStr b 0 with e | ⟨reason, off⟩ <;> rfl

end Indexed

/-- Every payload of the handshake reads back, with an empty token as no token; no decoder
ever indexes past the end of its input; and a RESP or AUTH_ACK payload that is accepted is
the encoding of the value it is read as. -/
theorem payload_codecs :
    (∀ (id : UInt64) (name : String) (token : Option String), (ofString name).length ≤ 65535 →
      (∀ t ∈ token, (ofString t).length ≤ 65535) →
      Indexed.decodeDiscoverPayload (encodeDiscoverPayload id name token) =
        .value (id, name, token.filter (fun t => t ≠ ""))) ∧
    (∀ (id : UInt64) (name : String) (ports : List UInt16), (ofString name).length ≤ 65535 →
      Indexed.decodeRespPayload (encodeRespPayload id name ports) = .value ⟨id, name, ports⟩) ∧
    (∀ (user : String) (nonce : UInt64) (proof : Digest), (ofString user).length ≤ 65535 →
      Indexed.decodeAuthReqPayload (encodeAuthReqPayload user nonce proof) =
        .value ⟨user, nonce, proof⟩) ∧
    (∀ proof : Digest, Indexed.decodeAuthAckPayload (encodeAuthAckPayload proof) = .value proof) ∧
    (∀ reason : String, (ofString reason).length ≤ 65535 →
      Indexed.decodeAuthNackPayload (encodeAuthNackPayload reason) = .value reason) ∧
    (∀ b : Bytes, Indexed.decodeDiscoverPayload b ≠ .outOfRange ∧
      Indexed.decodeRespPayload b ≠ .outOfRange ∧ Indexed.decodeAuthReqPayload b ≠ .outOfRange ∧
      Indexed.decodeAuthAckPayload b ≠ .outOfRange ∧
      Indexed.decodeAuthNackPayload b ≠ .outOfRange) ∧
    (∀ (b : Bytes) (r : Resp), Indexed.decodeRespPayload b = .value r →
      encodeRespPayload r.discoverId r.deviceName r.ports = b) ∧
    ∀ (b : Bytes) (proof : Digest), Indexed.decodeAuthAckPayload b = .value proof →
      encodeAuthAckPayload proof = b := by
  simp only [Indexed.decodeDiscoverPayload_eq, Indexed.decodeRespPayload_eq,
    Indexed.decodeAuthReqPayload_eq, Indexed.decodeAuthAckPayload_eq,
    Indexed.decodeAuthNackPayload_eq, Reading.ofExcept_eq_value]
  refine ⟨?_, ?_, ?_, ?_, ?_, ?_, ?_, ?_⟩
  · intro id name token hname htoken
    apply decodeDiscoverPayload_encode
    · omega
    · intro t ht
      have := htoken t ht
      omega
  · intro id name ports hname
    exact decodeRespPayload_encode id name ports (by omega)
  · intro user nonce proof huser
    exact decodeAuthReqPayload_encode user nonce proof (by omega)
  · exact decodeDigest_toList
  · intro reason hreason
    exact decodeAuthNackPayload_encode reason (by omega)
  · intro b
    exact ⟨Reading.ofExcept_ne_outOfRange _, Reading.ofExcept_ne_outOfRange _,
      Reading.ofExcept_ne_outOfRange _, Reading.ofExcept_ne_outOfRange _,
      Reading.ofExcept_ne_outOfRange _⟩
  · intro b r hr
    exact encode_of_decodeRespPayload hr
  · intro b proof hp
    exact encode_of_decodeAuthAckPayload hp

/-- A DISCOVER with a token. -/
theorem payload_codecs_sample :
    Indexed.decodeDiscoverPayload (encodeDiscoverPayload 2 "pc" (some "tok")) =
      .value (2, "pc", some "tok") :=
  payload_codecs.1 2 "pc" (some "tok") (by decide) (by decide)

end LandscapeKit.Flare
