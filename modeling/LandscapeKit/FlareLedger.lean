import LandscapeKit.FlareSystem

/-!
A reading of the seal log. Every AEAD call is entered with what it was made for: which
handshake message of which server nonce, or which frame of which session. Two calls share
key and nonce only when they fill the same slot of this ledger.
-/

namespace LandscapeKit.Flare

open Bytes

/-- What an AEAD call was made for. A session frame has its number among the frames of
its session and direction. -/
inductive Entry
  | discover (nonce : Nonce) (aad plain : Bytes)
  | resp (pending : PendingHandshake)
  | ack (sn : UInt64) (sid : UInt32) (cn : UInt64)
  | nack (sn : UInt64) (reason : String)
  | authReq (sn cn : UInt64) (user : String)
  | session (dir : Dir) (sn cn : UInt64) (number : ℕ) (aad plain : Bytes)

inductive Slot
  | discover (nonce : Nonce)
  | resp (sn : UInt64)
  | ack (sn : UInt64)
  | nack (sn : UInt64)
  | authReq (sn : UInt64)
  | session (dir : Dir) (sn cn : UInt64) (number : ℕ)

inductive KeyKind
  | preShared
  | handshake (dir : Dir)
  | session (dir : Dir)

namespace KeyKind

def label : KeyKind → Bytes
  | preShared => ofString "terrain-hkey0"
  | handshake .c2s => ofString "terrain-hkey-c2s"
  | handshake .s2c => ofString "terrain-hkey-s2c"
  | session d => d.keyLabel

theorem label_mem (k : KeyKind) : k.label ∈ keyLabels := by
  cases k with
  | preShared => decide +kernel
  | handshake d => cases d <;> decide +kernel
  | session d => cases d <;> decide +kernel

theorem label_injective : Function.Injective label := by
  have hne : [preShared, handshake .c2s, handshake .s2c, session .c2s, session .s2c].Pairwise
      (fun a b => a.label ≠ b.label) := by decide +kernel
  simp only [List.pairwise_cons, List.mem_cons, List.not_mem_nil, or_false, forall_eq_or_imp,
    forall_eq] at hne
  intro a b hab
  rcases a with _ | ⟨_ | _⟩ | ⟨_ | _⟩ <;> rcases b with _ | ⟨_ | _⟩ | ⟨_ | _⟩ <;>
    first | rfl | (exfalso; have hba := hab.symm; tauto)

end KeyKind

theorem CollisionFree.kind_eq {P : Primitives} {master : MasterKey} (hc : CollisionFree P master)
    {k k' : KeyKind} {sn cn sn' cn' : UInt64}
    (he : h P k.label master.bytes.toList sn cn = h P k'.label master.bytes.toList sn' cn') :
    k = k' ∧ sn = sn' ∧ cn = cn' := by
  obtain ⟨hl, hs, hcn⟩ := hc _ k.label_mem _ k'.label_mem _ _ _ _ he
  exact ⟨KeyKind.label_injective hl, hs, hcn⟩

namespace Entry

def slot : Entry → Slot
  | discover nonce _ _ => .discover nonce
  | resp pending => .resp pending.serverNonce
  | ack sn _ _ => .ack sn
  | nack sn _ => .nack sn
  | authReq sn _ _ => .authReq sn
  | session dir sn cn number _ _ => .session dir sn cn number

def sender : Entry → Dir
  | discover _ _ _ => .c2s
  | resp _ => .s2c
  | ack _ _ _ => .s2c
  | nack _ _ => .s2c
  | authReq _ _ _ => .c2s
  | session dir _ _ _ _ _ => dir

def spends : Entry → Option UInt64
  | ack sn _ _ => some sn
  | nack sn _ => some sn
  | _ => none

def isSession (dir : Dir) (sn cn : UInt64) : Entry → Bool
  | session dir' sn' cn' _ _ _ => dir' == dir && sn' == sn && cn' == cn
  | _ => false

def kind : Entry → KeyKind
  | discover _ _ _ => .preShared
  | resp _ => .handshake .s2c
  | ack _ _ _ => .handshake .s2c
  | nack _ _ => .handshake .s2c
  | authReq _ _ _ => .handshake .c2s
  | session dir _ _ _ _ _ => .session dir

def serverNonce : Entry → UInt64
  | discover _ _ _ => 0
  | resp pending => pending.serverNonce
  | ack sn _ _ => sn
  | nack sn _ => sn
  | authReq sn _ _ => sn
  | session _ sn _ _ _ _ => sn

def clientNonce : Entry → UInt64
  | session _ _ cn _ _ _ => cn
  | _ => 0

section Ops

variable (P : Primitives) (cfg : ServerConfig) (master : MasterKey)

def authReqFrame (sn cn : UInt64) (user : String) : Sealed :=
  (HandshakeKeys.derive P master sn).sealFrame P .c2s typeAuthReq 0 hsAuthReq
    (encodeAuthReqPayload user cn (authProofC2S P master sn cn))

def op : Entry → SealOp
  | discover nonce aad plain => ⟨(PreSharedKey.derive P master).bytes, nonce, aad, plain⟩
  | resp pending =>
    (ServerSession.respFrame P master cfg.deviceName cfg.forwardPorts pending).op
  | ack sn sid cn =>
    ((HandshakeKeys.derive P master sn).sealFrame P .s2c typeAuthAck sid hsAuthAck
      (encodeAuthAckPayload (authProofS2C P master sn cn))).op
  | nack sn reason =>
    ((HandshakeKeys.derive P master sn).sealFrame P .s2c typeAuthNack 0 hsAuthNack
      (encodeAuthNackPayload reason)).op
  | authReq sn cn user => (authReqFrame P master sn cn user).op
  | session dir sn cn number aad plain =>
    (SessionKeys.derive P master sn cn).sealOp dir (UInt32.ofNat number) aad plain

theorem op_key (e : Entry) : (e.op P cfg master).key =
    h P e.kind.label master.bytes.toList e.serverNonce e.clientNonce := by
  cases e with
  | session dir sn cn number aad plain => cases dir <;> rfl
  | _ => rfl

variable {P cfg master}

theorem op_kind (hc : CollisionFree P master) {e : Entry} (k : KeyKind) {sn cn : UInt64}
    (hk : (e.op P cfg master).key = h P k.label master.bytes.toList sn cn) :
    e.kind = k ∧ e.serverNonce = sn ∧ e.clientNonce = cn := by
  rw [op_key] at hk
  exact hc.kind_eq hk

theorem eq_authReq (hc : CollisionFree P master) {e : Entry} {sn : UInt64}
    (hk : (e.op P cfg master).key = (HandshakeKeys.derive P master sn).c2s) :
    ∃ cn user, e = authReq sn cn user := by
  obtain ⟨hkind, hsn, -⟩ := op_kind hc (.handshake .c2s) hk
  cases e with
  | authReq sn' cn user =>
    obtain rfl := hsn
    exact ⟨cn, user, rfl⟩
  | _ => exact absurd hkind (by simp [kind])

theorem eq_of_s2c (hc : CollisionFree P master) {e : Entry} {sn : UInt64} (counter : UInt32)
    (hk : (e.op P cfg master).key = (HandshakeKeys.derive P master sn).s2c)
    (hn : (e.op P cfg master).nonce = (HandshakeKeys.derive P master sn).nonce counter) :
    (counter = hsResp ∧ ∃ id, e = resp ⟨id, sn⟩) ∨
      (counter = hsAuthAck ∧ ∃ sid cn, e = ack sn sid cn) ∨
      (counter = hsAuthNack ∧ ∃ reason, e = nack sn reason) := by
  obtain ⟨hkind, hsn, -⟩ := op_kind hc (.handshake .s2c) hk
  cases e with
  | resp pending =>
    obtain rfl := hsn
    exact Or.inl ⟨(saltNonce_injective hn).2.symm, pending.discoverId, rfl⟩
  | ack sn' sid cn =>
    obtain rfl := hsn
    exact Or.inr (Or.inl ⟨(saltNonce_injective hn).2.symm, sid, cn, rfl⟩)
  | nack sn' reason =>
    obtain rfl := hsn
    exact Or.inr (Or.inr ⟨(saltNonce_injective hn).2.symm, reason, rfl⟩)
  | _ => exact absurd hkind (by simp [kind])

def BeforeWrap : Entry → Prop
  | session _ _ _ number _ _ => number < 2^32
  | _ => True

theorem slot_eq_of_op (hc : CollisionFree P master) {e e' : Entry} (hw : e.BeforeWrap)
    (hw' : e'.BeforeWrap) (hk : (e.op P cfg master).key = (e'.op P cfg master).key)
    (hn : (e.op P cfg master).nonce = (e'.op P cfg master).nonce) : e.slot = e'.slot := by
  have hkey := hk
  rw [op_key P cfg master e'] at hk
  obtain ⟨hkind, hsn, hcn⟩ := op_kind hc _ hk
  cases e' with
  | discover nonce aad plain =>
    cases e with
    | discover nonce' aad' plain' => exact congrArg Slot.discover hn
    | _ => exact absurd hkind (by simp [kind])
  | authReq sn cn user =>
    obtain ⟨cn', user', rfl⟩ := eq_authReq hc hkey
    rfl
  | resp pending =>
    obtain ⟨-, id, rfl⟩ | ⟨hx, -⟩ | ⟨hx, -⟩ := eq_of_s2c hc hsResp hkey hn
    · rfl
    · exact absurd hx (by decide)
    · exact absurd hx (by decide)
  | ack sn sid cn =>
    obtain ⟨hx, -⟩ | ⟨-, sid', cn', rfl⟩ | ⟨hx, -⟩ := eq_of_s2c hc hsAuthAck hkey hn
    · exact absurd hx (by decide)
    · rfl
    · exact absurd hx (by decide)
  | nack sn reason =>
    obtain ⟨hx, -⟩ | ⟨hx, -⟩ | ⟨-, reason', rfl⟩ := eq_of_s2c hc hsAuthNack hkey hn
    · exact absurd hx (by decide)
    · exact absurd hx (by decide)
    · rfl
  | session dir sn cn number aad plain =>
    cases e with
    | session dir' sn' cn' number' aad' plain' =>
      obtain rfl : dir' = dir := KeyKind.session.inj hkind
      obtain rfl : sn' = sn := hsn
      obtain rfl : cn' = cn := hcn
      have hnum : UInt32.ofNat number' = UInt32.ofNat number := (saltNonce_injective hn).2
      have hlt : number' < 2^32 := hw
      have hlt' : number < 2^32 := hw'
      have hnat : number' = number := by
        rw [← UInt32.toNat_ofNat_of_lt' hlt, ← UInt32.toNat_ofNat_of_lt' hlt', hnum]
      rw [hnat]
      rfl
    | _ => exact absurd hkind (by simp [kind])

end Ops

end Entry

def sealedUnder (ledger : List Entry) (dir : Dir) (sn cn : UInt64) : ℕ :=
  ledger.countP (Entry.isSession dir sn cn)

/-- The entry that gave one side its session keys: the AUTH_ACK the server sent, or the
AUTH_REQ the client built. -/
def Opened (ledger : List Entry) (sn cn : UInt64) : Dir → Prop
  | .s2c => ∃ sid, Entry.ack sn sid cn ∈ ledger
  | .c2s => ∃ user, Entry.authReq sn cn user ∈ ledger

theorem Opened.append {ledger more : List Entry} {sn cn : UInt64} {d : Dir}
    (h : Opened ledger sn cn d) : Opened (ledger ++ more) sn cn d := by
  cases d with
  | s2c =>
    obtain ⟨sid, hs⟩ := h
    exact ⟨sid, List.mem_append_left _ hs⟩
  | c2s =>
    obtain ⟨user, hu⟩ := h
    exact ⟨user, List.mem_append_left _ hu⟩

theorem sealedUnder_append (ledger more : List Entry) (d : Dir) (sn cn : UInt64) :
    sealedUnder (ledger ++ more) d sn cn = sealedUnder ledger d sn cn + sealedUnder more d sn cn :=
  List.countP_append

/-- No slot is filled twice, and the frames of a session are numbered from zero on after
the session was opened. -/
structure Ordered (ledger : List Entry) : Prop where
  distinct : ∀ e ∈ ledger, ∀ e' ∈ ledger, e.slot = e'.slot → e = e'
  numbered : ∀ d sn cn number aad plain, Entry.session d sn cn number aad plain ∈ ledger →
    number < sealedUnder ledger d sn cn ∧ Opened ledger sn cn d

theorem sealedUnder_eq_zero {ledger : List Entry} {d : Dir} {sn cn : UInt64}
    (h : ∀ number aad plain, Entry.session d sn cn number aad plain ∉ ledger) :
    sealedUnder ledger d sn cn = 0 := by
  rw [sealedUnder, List.countP_eq_zero]
  intro e he hs
  cases e with
  | session d' sn' cn' number aad plain =>
    simp only [Entry.isSession, Bool.and_eq_true, beq_iff_eq] at hs
    obtain ⟨⟨rfl, rfl⟩, rfl⟩ := hs
    exact h number aad plain he
  | _ => exact absurd hs (by simp [Entry.isSession])

theorem sealedUnder_of_sender {more : List Entry} {d d' : Dir} (hd : d' ≠ d)
    (hm : ∀ e ∈ more, e.sender = d') (sn cn : UInt64) : sealedUnder more d sn cn = 0 := by
  apply sealedUnder_eq_zero
  intro number aad plain he
  exact hd (hm _ he).symm

theorem Ordered.append_one {ledger : List Entry} (ho : Ordered ledger) (e : Entry)
    (hfree : ∀ e' ∈ ledger, e'.slot = e.slot → e' = e)
    (hne : ∀ d sn cn, e.isSession d sn cn = false) : Ordered (ledger ++ [e]) := by
  constructor
  · intro a ha b hb hab
    rw [List.mem_append, List.mem_singleton] at ha hb
    rcases ha with ha | rfl
    · rcases hb with hb | rfl
      · exact ho.distinct a ha b hb hab
      · exact hfree a ha hab
    · rcases hb with hb | rfl
      · exact (hfree b hb hab.symm).symm
      · rfl
  · intro d sn cn number aad plain hmem
    rw [List.mem_append, List.mem_singleton] at hmem
    rcases hmem with hmem | rfl
    · obtain ⟨hlt, hop⟩ := ho.numbered d sn cn number aad plain hmem
      rw [sealedUnder_append]
      exact ⟨by omega, hop.append⟩
    · exact absurd (hne d sn cn) (by simp [Entry.isSession])

section Sealers

variable {P : Primitives} {cfg : ServerConfig} {master : MasterKey} {ι : Type}

variable (P master) in
/-- The session cryptos of one side: each seals under the keys of a session that was
opened, counts the frames of that session, and shares its keys with no other. -/
structure Sealers (d : Dir) (f : ι → Option SessionCrypto) (ledger : List Entry) : Prop where
  keyed : ∀ i c, f i = some c → ∃ sn cn, Opened ledger sn cn d ∧
    c.keys = SessionKeys.derive P master sn cn ∧ c.txDir = d ∧
    c.txSeq = UInt32.ofNat (sealedUnder ledger d sn cn)
  apart : ∀ i j c c', f i = some c → f j = some c' → c.keys = c'.keys → i = j

namespace Sealers

variable {d : Dir} {f : ι → Option SessionCrypto} {ledger : List Entry}

theorem append (h : Sealers P master d f ledger) {more : List Entry}
    (hz : ∀ sn cn, sealedUnder more d sn cn = 0) : Sealers P master d f (ledger ++ more) := by
  refine ⟨?_, h.apart⟩
  intro i c hi
  obtain ⟨sn, cn, hop, hk, hd, hseq⟩ := h.keyed i c hi
  refine ⟨sn, cn, hop.append, hk, hd, ?_⟩
  rw [sealedUnder_append, hz, Nat.add_zero, hseq]

theorem of_subset (h : Sealers P master d f ledger) {f' : ι → Option SessionCrypto}
    (hf : ∀ i c, f' i = some c → f i = some c) : Sealers P master d f' ledger :=
  ⟨fun i c hi => h.keyed i c (hf i c hi),
    fun i j c c' hi hj => h.apart i j c c' (hf i c hi) (hf j c' hj)⟩

theorem set_new [DecidableEq ι] (h : Sealers P master d f ledger) (i : ι) {sn cn : UInt64}
    (hopen : Opened ledger sn cn d) (hz : sealedUnder ledger d sn cn = 0)
    (hap : ∀ j c, j ≠ i → f j = some c → c.keys ≠ SessionKeys.derive P master sn cn) :
    Sealers P master d
      (Function.update f i (some (SessionCrypto.new (.derive P master sn cn) d))) ledger := by
  constructor
  · intro j c hj
    by_cases hji : j = i
    · rw [hji, Function.update_self] at hj
      obtain rfl := Option.some.inj hj
      refine ⟨sn, cn, hopen, rfl, rfl, ?_⟩
      rw [hz]
      rfl
    · rw [Function.update_of_ne hji] at hj
      exact h.keyed j c hj
  · intro j k c c' hj hk hkeys
    by_cases hji : j = i
    · by_cases hki : k = i
      · rw [hji, hki]
      · rw [hji, Function.update_self] at hj
        rw [Function.update_of_ne hki] at hk
        obtain rfl := Option.some.inj hj
        exact absurd hkeys.symm (hap k c' hki hk)
    · rw [Function.update_of_ne hji] at hj
      by_cases hki : k = i
      · rw [hki, Function.update_self] at hk
        obtain rfl := Option.some.inj hk
        exact absurd hkeys (hap j c hji hj)
      · rw [Function.update_of_ne hki] at hk
        exact h.apart j k c c' hj hk hkeys

end Sealers

def sessionEntries (d : Dir) (sn cn : UInt64) (base : ℕ) (calls : List SealOp) : List Entry :=
  calls.mapIdx (fun i o => Entry.session d sn cn (base + i) o.aad o.plain)

theorem mem_sessionEntries {d : Dir} {sn cn : UInt64} {base : ℕ} {calls : List SealOp} {e : Entry}
    (he : e ∈ sessionEntries d sn cn base calls) : ∃ i aad plain, i < calls.length ∧
      e = Entry.session d sn cn (base + i) aad plain := by
  obtain ⟨i, hi, rfl⟩ := List.mem_mapIdx.mp he
  exact ⟨i, _, _, hi, rfl⟩

theorem sealedUnder_sessionEntries (d : Dir) (sn cn : UInt64) (base : ℕ) (calls : List SealOp) :
    sealedUnder (sessionEntries d sn cn base calls) d sn cn = calls.length := by
  have hall : ∀ e ∈ sessionEntries d sn cn base calls, Entry.isSession d sn cn e = true := by
    intro e he
    obtain ⟨i, aad, plain, -, rfl⟩ := mem_sessionEntries he
    simp [Entry.isSession]
  rw [sealedUnder, List.countP_eq_length.mpr hall, sessionEntries, List.length_mapIdx]

theorem sealedUnder_sessionEntries_of_ne {d d' : Dir} {sn cn sn' cn' : UInt64} (base : ℕ)
    (calls : List SealOp) (hne : ¬ (sn = sn' ∧ cn = cn')) :
    sealedUnder (sessionEntries d sn cn base calls) d' sn' cn' = 0 := by
  apply sealedUnder_eq_zero
  intro number aad plain he
  obtain ⟨i, aad', plain', -, heq⟩ := mem_sessionEntries he
  injection heq with hd hsn hcn
  exact hne ⟨hsn.symm, hcn.symm⟩

theorem SealedRun.map_op (cfg : ServerConfig) {c c' : SessionCrypto} {calls : List SealOp}
    (hr : SealedRun c c' calls) {sn cn : UInt64} {base : ℕ} (hk : c.keys = SessionKeys.derive P master sn cn)
    (hseq : c.txSeq = UInt32.ofNat base) :
    (sessionEntries c.txDir sn cn base calls).map (Entry.op P cfg master) = calls := by
  apply List.ext_getElem
  · rw [List.length_map, sessionEntries, List.length_mapIdx]
  · intro i hi hi'
    have hcall : (calls[i].key, calls[i].nonce) =
        (c.keys.key c.txDir, c.keys.nonce (c.txSeq + UInt32.ofNat i)) := by
      have hget := congrArg (fun l => l[i]?) hr.calls
      simpa [hi'] using hget
    obtain ⟨hkey, hnonce⟩ := Prod.mk.inj hcall
    rw [hk] at hkey hnonce
    rw [List.getElem_map]
    simp only [sessionEntries, List.getElem_mapIdx, Entry.op, SessionKeys.sealOp]
    rw [UInt32.ofNat_add, ← hseq, ← hkey, ← hnonce]

theorem Sealers.run [DecidableEq ι] {d : Dir} {f : ι → Option SessionCrypto} {ledger : List Entry}
    (cfg : ServerConfig) (h : Sealers P master d f ledger) (ho : Ordered ledger) {i : ι} {c c' : SessionCrypto}
    {calls : List SealOp} (hi : f i = some c) (hr : SealedRun c c' calls) :
    ∃ sn cn more, c.keys = SessionKeys.derive P master sn cn ∧
      more.map (Entry.op P cfg master) = calls ∧
      (∀ e ∈ more, ∃ number aad plain, e = Entry.session d sn cn number aad plain) ∧
      Ordered (ledger ++ more) ∧
      Sealers P master d (Function.update f i (some c')) (ledger ++ more) := by
  obtain ⟨sn, cn, hop, hk, hd, hseq⟩ := h.keyed i c hi
  have hmap := hr.map_op cfg hk hseq
  rw [hd] at hmap
  have hcount := sealedUnder_sessionEntries d sn cn (sealedUnder ledger d sn cn) calls
  generalize hbase : sealedUnder ledger d sn cn = base at hmap hcount hseq
  refine ⟨sn, cn, sessionEntries d sn cn base calls, hk, hmap, ?_, ⟨?_, ?_⟩, ⟨?_, ?_⟩⟩
  · intro e he
    obtain ⟨i, aad, plain, -, rfl⟩ := mem_sessionEntries he
    exact ⟨_, aad, plain, rfl⟩
  · -- A new number is at least `base`, an old one below it.
    have hold : ∀ a ∈ ledger, ∀ b ∈ sessionEntries d sn cn base calls, a.slot ≠ b.slot := by
      intro a ha b hb hab
      obtain ⟨j, aad, plain, -, rfl⟩ := mem_sessionEntries hb
      cases a with
      | session d' sn' cn' number aad' plain' =>
        injection hab with h1 h2 h3 h4
        obtain ⟨hlt, -⟩ := ho.numbered _ _ _ _ _ _ ha
        rw [h1, h2, h3, hbase] at hlt
        omega
      | _ => exact absurd hab (by simp [Entry.slot])
    intro a ha b hb hab
    rw [List.mem_append] at ha hb
    rcases ha with ha | ha
    · rcases hb with hb | hb
      · exact ho.distinct a ha b hb hab
      · exact absurd hab (hold a ha b hb)
    · rcases hb with hb | hb
      · exact absurd hab.symm (hold b hb a ha)
      · obtain ⟨j, hj, rfl⟩ := List.mem_mapIdx.mp ha
        obtain ⟨k, hk, rfl⟩ := List.mem_mapIdx.mp hb
        injection hab with h1 h2 h3 h4
        obtain rfl : j = k := by omega
        rfl
  · intro d' sn' cn' number aad plain hmem
    rw [List.mem_append] at hmem
    rw [sealedUnder_append]
    rcases hmem with hmem | hmem
    · obtain ⟨hlt, hop'⟩ := ho.numbered _ _ _ _ _ _ hmem
      exact ⟨by omega, hop'.append⟩
    · obtain ⟨j, aad', plain', hj, heq⟩ := mem_sessionEntries hmem
      injection heq with h1 h2 h3 h4
      subst h1 h2 h3 h4
      rw [hcount, hbase]
      exact ⟨by omega, hop.append⟩
  · intro j c₂ hj
    by_cases hji : j = i
    · rw [hji, Function.update_self] at hj
      obtain rfl := Option.some.inj hj
      refine ⟨sn, cn, hop.append, hr.keys.trans hk, hr.dir.trans hd, ?_⟩
      rw [hr.seq, hseq, sealedUnder_append, hcount, hbase, UInt32.ofNat_add]
    · rw [Function.update_of_ne hji] at hj
      obtain ⟨sn₂, cn₂, hop₂, hk₂, hd₂, hseq₂⟩ := h.keyed j c₂ hj
      have hne : ¬ (sn = sn₂ ∧ cn = cn₂) := by
        rintro ⟨rfl, rfl⟩
        exact hji (h.apart j i c₂ c hj hi (hk₂.trans hk.symm))
      refine ⟨sn₂, cn₂, hop₂.append, hk₂, hd₂, ?_⟩
      rw [sealedUnder_append, sealedUnder_sessionEntries_of_ne _ _ hne, Nat.add_zero, hseq₂]
  · -- The keys of every crypto are what they were.
    have hkeys : ∀ j c₂, Function.update f i (some c') j = some c₂ →
        ∃ c₁, f j = some c₁ ∧ c₁.keys = c₂.keys := by
      intro j c₂ hj
      by_cases hji : j = i
      · rw [hji, Function.update_self] at hj
        obtain rfl := Option.some.inj hj
        exact ⟨c, by rw [hji, hi], hr.keys.symm⟩
      · rw [Function.update_of_ne hji] at hj
        exact ⟨c₂, hj, rfl⟩
    intro j k c₁ c₂ hj hk heq
    obtain ⟨c₃, h₃, he₃⟩ := hkeys j c₁ hj
    obtain ⟨c₄, h₄, he₄⟩ := hkeys k c₂ hk
    exact h.apart j k c₃ c₄ h₃ h₄ (by rw [he₃, he₄, heq])

end Sealers

section OpenedFrames

variable {P : Primitives} {cfg : ServerConfig} {master : MasterKey} {log : List SealOp}
  {ledger : List Entry} {raw : Bytes} {l : Frame}

theorem opened_entry (hlog : ledger.map (Entry.op P cfg master) = log)
    (hu : Unforged P master log raw) (hd : decode raw = .ok l) (k : KeyKind) {sn cn : UInt64}
    {nonce : Nonce} (cut : ℕ) {plain : Bytes}
    (hdec : P.decrypt (h P k.label master.bytes.toList sn cn) nonce l.header
      (l.payload.drop cut) = some plain) :
    ∃ e ∈ ledger, e.op P cfg master =
      ⟨h P k.label master.bytes.toList sn cn, nonce, l.header, plain⟩ := by
  have hmem := hu l hd k.label k.label_mem sn cn nonce cut plain hdec
  rw [← hlog] at hmem
  exact List.mem_map.mp hmem

theorem resp_entry (hc : CollisionFree P master) (hlog : ledger.map (Entry.op P cfg master) = log)
    (hu : Unforged P master log raw) (hd : decode raw = .ok l) {sn : UInt64} {plain : Bytes}
    (hopen : (HandshakeKeys.derive P master sn).openPrefixed P .s2c hsResp l 8 = some plain) :
    ∃ id, Entry.resp ⟨id, sn⟩ ∈ ledger ∧
      plain = encodeRespPayload id cfg.deviceName cfg.forwardPorts := by
  unfold HandshakeKeys.openPrefixed at hopen
  split at hopen
  · exact absurd hopen (by simp)
  obtain ⟨e, he, hop⟩ := opened_entry hlog hu hd (.handshake .s2c) 8 hopen
  obtain ⟨-, id, rfl⟩ | ⟨hx, -⟩ | ⟨hx, -⟩ := Entry.eq_of_s2c hc hsResp
    (congrArg SealOp.key hop) (congrArg SealOp.nonce hop)
  · exact ⟨id, he, (congrArg SealOp.plain hop).symm⟩
  · exact absurd hx (by decide)
  · exact absurd hx (by decide)

theorem ack_entry (hc : CollisionFree P master) (hlog : ledger.map (Entry.op P cfg master) = log)
    (hu : Unforged P master log raw) (hd : decode raw = .ok l) {sn : UInt64} {plain : Bytes}
    (hopen : (HandshakeKeys.derive P master sn).openFrame P .s2c hsAuthAck l = some plain) :
    ∃ sid cn len, Entry.ack sn sid cn ∈ ledger ∧
      plain = encodeAuthAckPayload (authProofS2C P master sn cn) ∧
      l.header = encodeHeader typeAuthAck sid 0 len := by
  obtain ⟨e, he, hop⟩ := opened_entry hlog hu hd (.handshake .s2c) 0 hopen
  obtain ⟨hx, -⟩ | ⟨-, sid, cn, rfl⟩ | ⟨hx, -⟩ := Entry.eq_of_s2c hc hsAuthAck
    (congrArg SealOp.key hop) (congrArg SealOp.nonce hop)
  · exact absurd hx (by decide)
  · exact ⟨sid, cn, _, he, (congrArg SealOp.plain hop).symm, (congrArg SealOp.aad hop).symm⟩
  · exact absurd hx (by decide)

theorem authReq_entry (hc : CollisionFree P master)
    (hlog : ledger.map (Entry.op P cfg master) = log) (hu : Unforged P master log raw)
    (hd : decode raw = .ok l) {sn : UInt64} {plain : Bytes}
    (hopen : (HandshakeKeys.derive P master sn).openFrame P .c2s hsAuthReq l = some plain) :
    ∃ cn user, Entry.authReq sn cn user ∈ ledger ∧
      (Entry.authReqFrame P master sn cn user).op =
        (HandshakeKeys.derive P master sn).sealOp .c2s hsAuthReq l.header plain := by
  obtain ⟨e, he, hop⟩ := opened_entry hlog hu hd (.handshake .c2s) 0 hopen
  obtain ⟨cn, user, rfl⟩ := Entry.eq_authReq hc (congrArg SealOp.key hop)
  exact ⟨cn, user, he, hop⟩

end OpenedFrames

end LandscapeKit.Flare
