import LandscapeKit.FlareAgreement

/-!
Nonce uniqueness of the AEAD over whole runs. The fixed counters of the handshake are
safe, since a server nonce is spent once and adopted once. The counter of a session is a
`u32` that wraps, so the session keys are safe for the first 2^32 frames of a direction.
-/

namespace LandscapeKit.Flare

open Bytes

def SealsBeforeWrap (P : Primitives) (master : MasterKey) (log : List SealOp) : Prop :=
  ∀ d sn cn, log.countP (fun op => op.key = (SessionKeys.derive P master sn cn).key d) ≤ 2^32

theorem sealedUnder_le_countP (P : Primitives) (cfg : ServerConfig) (master : MasterKey)
    (ledger : List Entry) (d : Dir) (sn cn : UInt64) :
    sealedUnder ledger d sn cn ≤ (ledger.map (Entry.op P cfg master)).countP
      (fun op => op.key = (SessionKeys.derive P master sn cn).key d) := by
  rw [sealedUnder, List.countP_map]
  apply List.countP_mono_left
  intro e _ hs
  cases e with
  | session d' sn' cn' number aad plain =>
    simp only [Entry.isSession, Bool.and_eq_true, beq_iff_eq] at hs
    obtain ⟨⟨rfl, rfl⟩, rfl⟩ := hs
    simp [Entry.op, SessionKeys.sealOp]
  | _ => exact absurd hs (by simp [Entry.isSession])

/-- In every run that stays before the wrap, two calls of the AEAD with the same key and
nonce are the same call. -/
theorem run_nonces_unique {S Sock : Type} (P : Primitives) (ops : StackOps S Sock)
    (cfg : ServerConfig) (users : ℕ → ClientConfig) (master : MasterKey)
    (hc : CollisionFree P master) (now : Instant) (events : List SystemEvent) (σ : System S)
    (hvalid : Valid P ops cfg users master (System.init now) events)
    (hσ : σ = (System.init now).run P ops cfg users master events)
    (hwrap : SealsBeforeWrap P master σ.log) :
    ∀ op ∈ σ.log, ∀ op' ∈ σ.log, op.key = op'.key → op.nonce = op'.nonce → op = op' := by
  obtain ⟨ledger, hr⟩ := (Recorded.init now).run hc ops users events hvalid
  rw [← hσ] at hr
  have hbefore : ∀ e ∈ ledger, e.BeforeWrap := by
    intro e he
    cases e with
    | session d sn cn number aad plain =>
      have hnumber := (hr.ordered.numbered _ _ _ _ _ _ he).1
      have hle := sealedUnder_le_countP P cfg master ledger d sn cn
      have hcount := hwrap d sn cn
      rw [← hr.log] at hcount
      exact hnumber.trans_le (hle.trans hcount)
    | _ => trivial
  intro op hop op' hop' hkey hnonce
  rw [← hr.log] at hop hop'
  obtain ⟨e, he, rfl⟩ := List.mem_map.mp hop
  obtain ⟨e', he', rfl⟩ := List.mem_map.mp hop'
  have hslot := Entry.slot_eq_of_op hc (hbefore e he) (hbefore e' he') hkey hnonce
  rw [hr.ordered.distinct e he e' he' hslot]

theorem run_nonces_unique_sample :
    sampleAgreed.log.length = 4 ∧ ∀ op ∈ sampleAgreed.log, ∀ op' ∈ sampleAgreed.log,
      op.key = op'.key → op.nonce = op'.nonce → op = op' := by
  have hlen : sampleAgreed.log.length = 4 := by decide +kernel
  have hvalid : Valid handshakeP tableStackOps sampleConfig sampleUsers sampleMaster
      (System.init 0) sampleHandshake := valid_of_check (by decide) (by decide +kernel)
  refine ⟨hlen, run_nonces_unique handshakeP tableStackOps sampleConfig sampleUsers sampleMaster
    (tablePrimitives_collisionFree _) 0 sampleHandshake sampleAgreed hvalid rfl ?_⟩
  intro d sn cn
  have hle := List.countP_le_length (l := sampleAgreed.log)
    (p := fun op => op.key = (SessionKeys.derive handshakeP sampleMaster sn cn).key d)
  omega

/-! A session that seals past the wrap. The stack of this client has a packet to send at
every poll, and its first packet is unlike the others. -/

def noisyStackOps : StackOps UInt8 Unit where
  create _ _ _ := 0
  pushPacket s _ := s
  poll _ s := (1, [[s]])
  pollDelay _ s := (s, none)
  listen s _ := (s, 0)
  connect s _ _ _ := (s, 0)
  state _ _ := .closed
  canRecv _ _ := false
  removeSocket s _ := (s, ())
  addSocket s _ := (s, 0)
  sendSlice s _ b := (s, b.length)
  recvSlice s _ _ := (s, [])
  close s _ := s

def noisyArgs : SessionArgs := ⟨sampleServerMac, 1, .derive handshakeP sampleMaster 1 2, [], []⟩

def noisyOp (k : ℕ) : SealOp :=
  noisyArgs.keys.sealOp .c2s (UInt32.ofNat k) (encodeHeader typeData 1 (UInt32.ofNat k) 17)
    [if k = 0 then 0 else 1]

structure Noisy (k : ℕ) (st : Flow UInt8 ClientExtra) : Prop where
  failed : st.failed = false
  conns : st.conns = ∅
  keys : st.crypto.keys = noisyArgs.keys
  dir : st.crypto.txDir = .c2s
  seq : st.crypto.txSeq = UInt32.ofNat k
  stack : st.stack = if k = 0 then 0 else 1

theorem pollAndSend_noisy {k : ℕ} {st : Flow UInt8 ClientExtra} (hn : Noisy k st) :
    ∃ st', st.pollAndSend handshakeP noisyStackOps (Client.link noisyArgs sampleClientEnv) = st' ∧
      Noisy (k+1) st' ∧
      st'.wire.filterMap OutFrame.op = st.wire.filterMap OutFrame.op ++ [noisyOp k] := by
  refine ⟨_, rfl, ⟨?_, ?_, ?_, ?_, ?_, ?_⟩, ?_⟩
  all_goals simp only [Flow.pollAndSend, hn.failed, Bool.false_eq_true, if_false, noisyStackOps,
    List.foldl_cons, List.foldl_nil, Flow.sendData, SessionCrypto.sealSession, hn.stack]
  · rfl
  · exact hn.conns
  · exact hn.keys
  · exact hn.dir
  · rw [hn.seq, UInt32.ofNat_add]
    rfl
  · simp
  · rw [List.filterMap_append]
    simp only [SessionCrypto.sealOp, hn.keys, hn.dir, hn.seq, noisyOp]
    rfl

theorem wake_noisy {k : ℕ} {c : Client UInt8} (hended : c.ended = none) (hn : Noisy k c.flow) :
    ∃ c', c.step handshakeP noisyStackOps noisyArgs sampleClientEnv .wake = c' ∧
      c'.ended = none ∧ Noisy (k+2) c'.flow ∧
      c'.sealed = c.sealed ++ [noisyOp k, noisyOp (k+1)] := by
  obtain ⟨st₁, h₁, hn₁, hw₁⟩ := pollAndSend_noisy hn
  obtain ⟨st₂, h₂, hn₂, hw₂⟩ := pollAndSend_noisy hn₁
  -- Without connections there is nothing to relay between the polls.
  have hrelay : st₁.relayAll noisyStackOps sampleClientEnv.order = st₁ := by
    simp only [Flow.relayAll, hn₁.failed, hn₁.conns, Bool.false_eq_true, if_false]
    rfl
  have hpump : c.pump handshakeP noisyStackOps noisyArgs sampleClientEnv = { c with flow := st₂ } := by
    simp only [Client.pump]
    rw [h₁, hrelay, h₂, if_neg (by rw [hn₂.failed]; decide)]
  have hstep : c.step handshakeP noisyStackOps noisyArgs sampleClientEnv .wake =
      c.pump handshakeP noisyStackOps noisyArgs sampleClientEnv := by
    simp only [Client.step]
    rw [if_neg (by rw [hended]; decide)]
    rfl
  refine ⟨_, hstep.trans hpump, hended, hn₂, ?_⟩
  simp only [Client.sealed]
  rw [hw₂, hw₁, List.append_assoc]
  rfl

def wakeup : SystemEvent := .client 0 (.loop sampleClientEnv .wake)

def noisyRun (n : ℕ) : List SystemEvent :=
  sampleHandshake ++ [.client 0 (.startLoop 0 0 [] [])] ++ List.replicate n wakeup

section Runs

variable {S Sock : Type} {P : Primitives} {ops : StackOps S Sock} {cfg : ServerConfig}
  {users : ℕ → ClientConfig} {master : MasterKey}

theorem valid_append {σ : System S} {es es' : List SystemEvent}
    (h : Valid P ops cfg users master σ es)
    (h' : Valid P ops cfg users master (σ.run P ops cfg users master es) es') :
    Valid P ops cfg users master σ (es ++ es') := by
  induction es generalizing σ with
  | nil => exact h'
  | cons e es ih => exact ⟨h.1, ih h.2 h'⟩

theorem valid_wakeups (σ : System S) (n : ℕ) :
    Valid P ops cfg users master σ (List.replicate n wakeup) := by
  induction n generalizing σ with
  | zero => trivial
  | succ n ih => exact ⟨by simp [wakeup, Allowed], ih _⟩

end Runs

theorem noisyRun_valid (n : ℕ) : Valid handshakeP noisyStackOps sampleConfig sampleUsers
    sampleMaster (System.init 0) (noisyRun n) := by
  refine valid_append (valid_append ?_ ⟨trivial, trivial⟩) (valid_wakeups _ n)
  exact valid_of_check (by decide) (by decide +kernel)

def noisyAgreed : System UInt8 :=
  (System.init 0).run handshakeP noisyStackOps sampleConfig sampleUsers sampleMaster sampleHandshake

def noisyAt (n : ℕ) : System UInt8 :=
  (System.init 0).run handshakeP noisyStackOps sampleConfig sampleUsers sampleMaster (noisyRun n)

theorem noisyAt_zero : ((noisyAt 0).clients 0).loop =
    some (noisyArgs, Client.init noisyStackOps noisyArgs 0 0) := by
  have hloop : (noisyAgreed.clients 0).loop = none := by
    have hsome : (noisyAgreed.clients 0).loop.isSome = false := by decide +kernel
    simpa using hsome
  have hphase : (noisyAgreed.clients 0).sess.phase = .session 1 noisyArgs.keys := by decide +kernel
  have hmac : (noisyAgreed.clients 0).serverMac = sampleServerMac := by decide +kernel
  have hstep : noisyAt 0 = noisyAgreed.clientStep handshakeP noisyStackOps sampleUsers sampleMaster 0
      (.startLoop 0 0 [] []) := by
    rw [noisyAt, noisyRun, List.replicate_zero, List.append_nil, System.run, List.foldl_append]
    rfl
  rw [hstep]
  simp only [System.clientStep, Party.act, Party.onStart, hloop, hphase, hmac,
    Function.update_self]
  rfl

theorem noisyAt_succ (n : ℕ) : noisyAt (n+1) = (noisyAt n).clientStep handshakeP noisyStackOps
    sampleUsers sampleMaster 0 (.loop sampleClientEnv .wake) := by
  rw [noisyAt, noisyRun, List.replicate_succ', ← List.append_assoc, System.run, List.foldl_append]
  rfl

theorem noisyAt_log (n : ℕ) : (∃ c, ((noisyAt n).clients 0).loop = some (noisyArgs, c) ∧
    c.ended = none ∧ Noisy (2*n) c.flow) ∧ ∀ k, k < 2*n → noisyOp k ∈ (noisyAt n).log := by
  induction n with
  | zero =>
    refine ⟨⟨_, noisyAt_zero, rfl, ⟨rfl, rfl, rfl, rfl, rfl, rfl⟩⟩, ?_⟩
    intro k hk
    omega
  | succ n ih =>
    obtain ⟨⟨c, hloop, hended, hn⟩, hlog⟩ := ih
    obtain ⟨c', hstep, hended', hn', hsealed⟩ := wake_noisy hended hn
    rw [noisyAt_succ]
    simp only [System.clientStep, Party.act, Party.onLoop, hloop, Function.update_self, hstep]
    refine ⟨⟨c', rfl, hended', hn'⟩, ?_⟩
    intro k hk
    rw [hsealed, List.drop_left, List.mem_append]
    by_cases hold : k < 2*n
    · exact Or.inl (hlog k hold)
    · right
      have hcases : k = 2*n ∨ k = 2*n+1 := by omega
      rcases hcases with rfl | rfl
      · simp
      · simp

theorem noisyOp_wraps (k : ℕ) : (noisyOp (k + 2^32)).key = (noisyOp k).key ∧
    (noisyOp (k + 2^32)).nonce = (noisyOp k).nonce := by
  have hseq : UInt32.ofNat (k + 2^32) = UInt32.ofNat k := by
    apply UInt32.toNat_inj.mp
    rw [UInt32.toNat_ofNat', UInt32.toNat_ofNat', Nat.add_mod_right]
  simp only [noisyOp, SessionKeys.sealOp, hseq, and_self]

theorem noisyAt_reuses (n : ℕ) (hn : 2^32 < 2*n) :
    ∃ op ∈ (noisyAt n).log, ∃ op' ∈ (noisyAt n).log,
      op.key = op'.key ∧ op.nonce = op'.nonce ∧ op.plain ≠ op'.plain := by
  have hlog := (noisyAt_log n).2
  obtain ⟨hkey, hnonce⟩ := noisyOp_wraps 0
  refine ⟨noisyOp (0 + 2^32), hlog _ (by omega), noisyOp 0, hlog 0 (by omega), hkey, hnonce, ?_⟩
  simp [noisyOp, SessionKeys.sealOp]

/-- After 2^32 frames the counter of the session is back at zero: frame 2^32 is sealed
under the key and the nonce of the first one, with another plaintext. -/
theorem nonce_reused_after_wrap :
    CollisionFree handshakeP sampleMaster ∧
    Valid handshakeP noisyStackOps sampleConfig sampleUsers sampleMaster (System.init 0)
      (noisyRun (2^31+1)) ∧
    ∃ op ∈ (noisyAt (2^31+1)).log, ∃ op' ∈ (noisyAt (2^31+1)).log,
      op.key = op'.key ∧ op.nonce = op'.nonce ∧ op.plain ≠ op'.plain :=
  ⟨tablePrimitives_collisionFree _, noisyRun_valid _, noisyAt_reuses _ (by omega)⟩

end LandscapeKit.Flare
