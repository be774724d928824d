import LandscapeKit.FlareLedgerClient

/-!
Agreement of the handshake: what a client believes when it enters a session, and what the
server accepted. Everything rests on the ledger, which every allowed event extends.
-/

namespace LandscapeKit.Flare

open Bytes

/-- The verdict accepted the AUTH_REQ of this attempt: its bytes, under its server nonce,
with the session keys of both nonces. -/
structure Verdict.Accepts (P : Primitives) (master : MasterKey) (v : Verdict) (a : Attempt)
    (sid : UInt32) (keys : SessionKeys) : Prop where
  result : ∃ proof hkey user, v.result = .accepted sid keys proof hkey user
  pending : v.pending.map (fun pd => pd.serverNonce) = some a.serverNonce
  keys_eq : keys = SessionKeys.derive P master a.serverNonce a.clientNonce
  frame : v.frame.header ++ v.frame.payload = a.authReq.raw

def Verdict.acceptedNonce (v : Verdict) : Option UInt64 :=
  match v.result with
  | .accepted _ _ _ _ _ => v.pending.map (fun pd => pd.serverNonce)
  | _ => none

theorem Verdict.acceptedNonce_of_result {v : Verdict} {sid : UInt32} {keys : SessionKeys}
    {proof : Digest} {hkey : HandshakeKeys} {user : String}
    (hr : v.result = .accepted sid keys proof hkey user) :
    v.acceptedNonce = v.pending.map (fun pd => pd.serverNonce) := by
  rw [acceptedNonce, hr]

theorem Verdict.result_of_acceptedNonce {v : Verdict} {sn : UInt64}
    (h : v.acceptedNonce = some sn) :
    ∃ sid keys proof hkey user, v.result = .accepted sid keys proof hkey user := by
  unfold acceptedNonce at h
  split at h
  next sid keys proof hkey user hr => exact ⟨sid, keys, proof, hkey, user, hr⟩
  next => exact absurd h (by simp)

structure VerdictsAgree (P : Primitives) (master : MasterKey) (verdicts : List Verdict)
    (auths : List (ℕ × Attempt)) (ledger : List Entry) : Prop where
  acked : ∀ sn sid cn, Entry.ack sn sid cn ∈ ledger → ∃ v ∈ verdicts, ∃ i a, (i, a) ∈ auths ∧
    a.serverNonce = sn ∧ a.clientNonce = cn ∧ v.Accepts P master a sid (.derive P master sn cn)
  accepted : ∀ v ∈ verdicts, ∀ sid keys proof hkey user,
    v.result = .accepted sid keys proof hkey user → ∃ i a, (i, a) ∈ auths ∧
      v.Accepts P master a sid keys ∧ Entry.ack a.serverNonce sid a.clientNonce ∈ ledger
  apart : verdicts.Pairwise (fun v v' => ∀ sn, v.acceptedNonce = some sn →
    v'.acceptedNonce ≠ some sn)

namespace VerdictsAgree

variable {P : Primitives} {master : MasterKey} {verdicts : List Verdict}
  {auths : List (ℕ × Attempt)} {ledger : List Entry}

theorem extend (h : VerdictsAgree P master verdicts auths ledger) {vs : List Verdict}
    {as : List (ℕ × Attempt)} {more : List Entry}
    (hvs : ∀ v ∈ vs, ∀ sid keys proof hkey user, v.result ≠ .accepted sid keys proof hkey user)
    (hm : ∀ sn sid cn, Entry.ack sn sid cn ∉ more) :
    VerdictsAgree P master (verdicts ++ vs) (auths ++ as) (ledger ++ more) := by
  have hnone : ∀ v ∈ vs, ∀ sn, v.acceptedNonce ≠ some sn := by
    intro v hv sn hsn
    obtain ⟨sid, keys, proof, hkey, user, hr⟩ := Verdict.result_of_acceptedNonce hsn
    exact hvs v hv _ _ _ _ _ hr
  refine ⟨?_, ?_, ?_⟩
  · intro sn sid cn he
    rcases List.mem_append.mp he with hold | hnew
    · obtain ⟨v, hv, i, a, ha, hrest⟩ := h.acked sn sid cn hold
      exact ⟨v, List.mem_append_left _ hv, i, a, List.mem_append_left _ ha, hrest⟩
    · exact absurd hnew (hm sn sid cn)
  · intro v hv sid keys proof hkey user hr
    rcases List.mem_append.mp hv with hold | hnew
    · obtain ⟨i, a, ha, hacc, hack⟩ := h.accepted v hold sid keys proof hkey user hr
      exact ⟨i, a, List.mem_append_left _ ha, hacc, List.mem_append_left _ hack⟩
    · exact absurd hr (hvs v hnew sid keys proof hkey user)
  · rw [List.pairwise_append]
    refine ⟨h.apart, ?_, ?_⟩
    · rw [List.pairwise_iff_forall_sublist]
      intro v v' hsub sn hsn
      exact absurd hsn (hnone v (hsub.subset (by simp)) sn)
    · exact fun v _ v' hv' sn _ => hnone v' hv' sn

theorem accept (h : VerdictsAgree P master verdicts auths ledger) {v : Verdict} {i : ℕ}
    {a : Attempt} {sid : UInt32} (ha : (i, a) ∈ auths)
    (hacc : v.Accepts P master a sid (.derive P master a.serverNonce a.clientNonce))
    (hfree : ∀ e ∈ ledger, e.spends ≠ some a.serverNonce) :
    VerdictsAgree P master (verdicts ++ [v]) auths
      (ledger ++ [.ack a.serverNonce sid a.clientNonce]) := by
  refine ⟨?_, ?_, ?_⟩
  · intro sn sid' cn he
    rcases List.mem_append.mp he with hold | hnew
    · obtain ⟨v', hv', hrest⟩ := h.acked sn sid' cn hold
      exact ⟨v', List.mem_append_left _ hv', hrest⟩
    · have heq := List.mem_singleton.mp hnew
      injection heq with h1 h2 h3
      subst h1 h2 h3
      exact ⟨v, by simp, i, a, ha, rfl, rfl, hacc⟩
  · intro v' hv' sid' keys proof hkey user hr
    rcases List.mem_append.mp hv' with hold | hnew
    · obtain ⟨j, b, hb, hacc', hack⟩ := h.accepted v' hold sid' keys proof hkey user hr
      exact ⟨j, b, hb, hacc', List.mem_append_left _ hack⟩
    · obtain rfl := List.mem_singleton.mp hnew
      obtain ⟨proof', hkey', user', hr'⟩ := hacc.result
      rw [hr] at hr'
      injection hr' with h1 h2
      subst h1 h2
      exact ⟨i, a, ha, hacc, by simp⟩
  · rw [List.pairwise_append]
    refine ⟨h.apart, List.pairwise_singleton _ _, ?_⟩
    intro v' hv' w hw sn hsn hsn'
    obtain rfl := List.mem_singleton.mp hw
    obtain ⟨_, _, _, hrw⟩ := hacc.result
    rw [Verdict.acceptedNonce_of_result hrw, hacc.pending] at hsn'
    obtain rfl := Option.some.inj hsn'
    -- The older verdict went with an ACK of the same nonce.
    obtain ⟨sid', keys, proof, hkey, user, hr⟩ := Verdict.result_of_acceptedNonce hsn
    obtain ⟨j, b, hb, hacc', hack⟩ := h.accepted v' hv' _ _ _ _ _ hr
    rw [Verdict.acceptedNonce_of_result hr, hacc'.pending] at hsn
    exact hfree _ hack hsn

end VerdictsAgree

theorem decode_payload_length {raw : Bytes} {l : Frame} (hd : decode raw = .ok l) :
    l.payload.length < 2^16 := by
  unfold decode at hd
  split at hd
  · exact absurd hd (by simp)
  split at hd
  · exact absurd hd (by simp)
  dsimp only at hd
  split at hd
  · exact absurd hd (by simp)
  split at hd
  · exact absurd hd (by simp)
  next hlen =>
    obtain rfl := Except.ok.inj hd
    rw [slice_length (by omega)]
    exact UInt16.toNat_lt _

structure Recorded {S : Type} (P : Primitives) (cfg : ServerConfig) (master : MasterKey)
    (σ : System S) (ledger : List Entry) : Prop where
  log : ledger.map (Entry.op P cfg master) = σ.log
  ordered : Ordered ledger
  server : σ.server.Enters P master ledger
  clients : ClientsEnter P master σ.clients σ.auths σ.discoverIds σ.discoverNonces ledger

namespace Recorded

variable {S Sock : Type} {P : Primitives} {cfg : ServerConfig} {master : MasterKey} {σ : System S}
  {ledger more : List Entry}

theorem init (now : Instant) : Recorded P cfg master (System.init now : System S) [] := by
  refine ⟨rfl, ⟨by simp, by simp⟩, ⟨by simp, ⟨?_, ?_, ?_⟩, ⟨?_, ?_⟩⟩, ?_⟩
  · intro m pd hm
    exact absurd hm (by simp [System.init, Server.init, Server.pendingAt])
  · intro m pd hm
    exact absurd hm (by simp [System.init, Server.init, Server.pendingAt])
  · intro m m' pd pd' hm
    exact absurd hm (by simp [System.init, Server.init, Server.pendingAt])
  · intro m c hm
    exact absurd hm (by simp [System.init, Server.init, Server.cryptoAt])
  · intro m m' c c' hm
    exact absurd hm (by simp [System.init, Server.init, Server.cryptoAt])
  · refine ⟨by simp, by simp, ?_, ?_, ?_, ?_, fun i => .new, ⟨?_, ?_⟩⟩
    · intro i a ha
      exact absurd ha (by simp [System.init])
    · simp [System.init]
    · rintro j id ⟨hst, -⟩
      exact absurd hst (by simp [System.init, Party.new])
    · rintro i j id ⟨hst, -⟩
      exact absurd hst (by simp [System.init, Party.new])
    · intro i c hi
      exact absurd hi (by simp [System.init, Party.new, Party.crypto])
    · intro i j c c' hi
      exact absurd hi (by simp [System.init, Party.new, Party.crypto])

theorem of_serverAdds (hr : Recorded P cfg master σ ledger) (ops : StackOps S Sock) (env : ServerEnv)
    (e : Server.Event)
    (hadds : Server.Adds P cfg master σ.server (σ.server.step P ops cfg master env e) ledger more) :
    Recorded P cfg master (σ.serverStep P ops cfg master env e) (ledger ++ more) := by
  refine ⟨?_, hadds.ordered, hadds.enters, hr.clients.append_server hadds.sender⟩
  simp only [System.serverStep]
  rw [hadds.calls, List.drop_left, List.map_append, hr.log]

theorem of_clientAdds (hr : Recorded P cfg master σ ledger) (ops : StackOps S Sock)
    (users : ℕ → ClientConfig) (i : ℕ) (a : PartyAct)
    (hadds : System.ClientAdds P cfg master σ (σ.clientStep P ops users master i a) ledger more) :
    Recorded P cfg master (σ.clientStep P ops users master i a) (ledger ++ more) := by
  refine ⟨?_, hadds.ordered, hr.server.append_client hadds.sender, hadds.enters⟩
  rw [hadds.calls, List.map_append, hr.log]

theorem step (hr : Recorded P cfg master σ ledger) (hc : CollisionFree P master)
    (ops : StackOps S Sock) (users : ℕ → ClientConfig) (e : SystemEvent)
    (hallow : Allowed P master σ e) :
    ∃ more, Recorded P cfg master (σ.step P ops cfg users master e) (ledger ++ more) := by
  cases e with
  | server env e =>
    rcases Server.step_adds hc ops hr.ordered hr.server e hallow.1 with
      ⟨more, vs, hadds, -⟩ | ⟨_, _, _, _, -, -, _, _, _, _, _, -, -, -, hadds, -⟩
    · exact ⟨more, hr.of_serverAdds ops env e hadds⟩
    · exact ⟨_, hr.of_serverAdds ops env e hadds⟩
  | client i a =>
    obtain ⟨more, hadds⟩ := System.clientStep_adds ops users hc hr.log hr.ordered hr.clients i a hallow
    exact ⟨more, hr.of_clientAdds ops users i a hadds⟩

theorem run (hr : Recorded P cfg master σ ledger) (hc : CollisionFree P master)
    (ops : StackOps S Sock) (users : ℕ → ClientConfig) (events : List SystemEvent)
    (hvalid : Valid P ops cfg users master σ events) :
    ∃ ledger', Recorded P cfg master (σ.run P ops cfg users master events) ledger' := by
  induction events generalizing σ ledger with
  | nil => exact ⟨ledger, hr⟩
  | cons e events ih =>
    obtain ⟨more, hr'⟩ := hr.step hc ops users e hvalid.1
    exact ih hr' hvalid.2

theorem attempt_of_open (hr : Recorded P cfg master σ ledger) (hc : CollisionFree P master)
    (hopens : P.OpensOnlyEncrypted) {raw : Bytes} {l : Frame} (hu : Unforged P master σ.log raw)
    (hd : decode raw = .ok l) {sn : UInt64} {plain : Bytes} {req : AuthReq}
    (hopen : (HandshakeKeys.derive P master sn).openFrame P .c2s hsAuthReq l = some plain)
    (hdec : decodeAuthReqPayload plain = .ok req) :
    ∃ i a, (i, a) ∈ σ.auths ∧ a.serverNonce = sn ∧ a.clientNonce = req.nonce ∧
      l.header ++ l.payload = a.authReq.raw := by
  obtain ⟨cn, user, hreq, hop⟩ := authReq_entry hc hr.log hu hd hopen
  obtain ⟨i, a, ha, rfl⟩ := hr.clients.requests sn cn user hreq
  obtain ⟨⟨user', hreq', hframe⟩, -⟩ := hr.clients.built i a ha
  have heq := hr.ordered.distinct _ hreq _ hreq' rfl
  injection heq with _ hcn huser
  subst hcn huser
  have hpayload : l.payload =
      (Entry.authReqFrame P master a.serverNonce a.clientNonce user).op.run P := by
    rw [hop]
    exact hopens _ _ _ _ _ hopen
  have hplain : plain = encodeAuthReqPayload user a.clientNonce
      (authProofC2S P master a.serverNonce a.clientNonce) := (congrArg SealOp.plain hop).symm
  -- The payload fits a frame, so the name in front of the client nonce reads back.
  have hfit : (ofString user).length < 2^16 := by
    have hlen := decode_payload_length hd
    rw [hpayload, SealOp.run_length, hop, HandshakeKeys.sealOp, hplain] at hlen
    simp only [encodeAuthReqPayload, putStr, List.length_append] at hlen
    omega
  rw [hplain, decodeAuthReqPayload_encode _ _ _ hfit] at hdec
  obtain rfl := Except.ok.inj hdec
  refine ⟨i, a, ha, rfl, rfl, ?_⟩
  have haad : (Entry.authReqFrame P master a.serverNonce a.clientNonce user).op.aad = l.header :=
    congrArg SealOp.aad hop
  rw [hframe, ← haad, hpayload]
  rfl

end Recorded

section Verdicts

variable {S Sock : Type} {P : Primitives} {cfg : ServerConfig} {master : MasterKey} {σ : System S}
  {ledger : List Entry}

theorem step_verdictsAgree (hr : Recorded P cfg master σ ledger)
    (hv : VerdictsAgree P master σ.server.verdicts σ.auths ledger) (hc : CollisionFree P master)
    (hopens : P.OpensOnlyEncrypted) (ops : StackOps S Sock) (users : ℕ → ClientConfig)
    (e : SystemEvent) (hallow : Allowed P master σ e) :
    ∃ more, Recorded P cfg master (σ.step P ops cfg users master e) (ledger ++ more) ∧
      VerdictsAgree P master (σ.step P ops cfg users master e).server.verdicts
        (σ.step P ops cfg users master e).auths (ledger ++ more) := by
  cases e with
  | server env e =>
    rcases Server.step_adds hc ops hr.ordered hr.server e hallow.1 with
      ⟨more, vs, hadds, hno, hvs, hnone⟩ | ⟨mac, ifindex, raw, l, rfl, hd, hacc⟩
    · refine ⟨more, hr.of_serverAdds ops env e hadds, ?_⟩
      have hauths : σ.auths = σ.auths ++ [] := (List.append_nil _).symm
      simp only [System.step, System.serverStep]
      rw [hvs, hauths]
      exact hv.extend hnone hno
    · obtain ⟨m, pd, sid, plain, req, hat, hopen, hdec, hadds, hvs⟩ := hacc
      obtain ⟨i, a, ha, hsn, hcn, hframe⟩ := hr.attempt_of_open hc hopens
        (hallow.2 mac ifindex raw rfl) hd hopen hdec
      refine ⟨_, hr.of_serverAdds ops env _ hadds, ?_⟩
      have hunspent := hr.server.standing.unspent m pd hat
      simp only [System.step, System.serverStep]
      rw [← hsn] at hunspent
      rw [hvs, ← hsn, ← hcn]
      refine hv.accept ha ⟨⟨_, _, _, rfl⟩, ?_, rfl, hframe⟩ hunspent
      rw [hsn]
      rfl
  | client i a =>
    obtain ⟨more, hadds⟩ := System.clientStep_adds ops users hc hr.log hr.ordered hr.clients i a hallow
    refine ⟨more, hr.of_clientAdds ops users i a hadds, ?_⟩
    have hno : ∀ sn sid cn, Entry.ack sn sid cn ∉ more := by
      intro sn sid cn he
      exact absurd (hadds.sender _ he) (by simp [Entry.sender])
    have hsame : σ.server.verdicts = σ.server.verdicts ++ [] := (List.append_nil _).symm
    simp only [System.step, System.clientStep]
    rw [hsame]
    exact hv.extend (by simp) hno

theorem run_verdictsAgree (hr : Recorded P cfg master σ ledger)
    (hv : VerdictsAgree P master σ.server.verdicts σ.auths ledger) (hc : CollisionFree P master)
    (hopens : P.OpensOnlyEncrypted) (ops : StackOps S Sock) (users : ℕ → ClientConfig)
    (events : List SystemEvent) (hvalid : Valid P ops cfg users master σ events) :
    ∃ ledger', Recorded P cfg master (σ.run P ops cfg users master events) ledger' ∧
      VerdictsAgree P master (σ.run P ops cfg users master events).server.verdicts
        (σ.run P ops cfg users master events).auths ledger' := by
  induction events generalizing σ ledger with
  | nil => exact ⟨ledger, hr, hv⟩
  | cons e events ih =>
    obtain ⟨more, hr', hv'⟩ := step_verdictsAgree hr hv hc hopens ops users e hvalid.1
    exact ih hr' hv' hvalid.2

theorem init_verdictsAgree (now : Instant) :
    VerdictsAgree P master (System.init now : System S).server.verdicts
      (System.init now : System S).auths [] := by
  refine ⟨by simp, ?_, List.Pairwise.nil⟩
  intro v hv
  exact absurd hv (by simp [System.init, Server.init])

end Verdicts

/-- Whoever is in a session shares it with the server: in every state the system can
reach, the phase of a client names a verdict that accepted its current attempt, every
accepting verdict belongs to one attempt, and no two of them share attempt or keys. -/
theorem run_agreement {S Sock : Type} (P : Primitives) (ops : StackOps S Sock) (cfg : ServerConfig)
    (users : ℕ → ClientConfig) (master : MasterKey) (hc : CollisionFree P master)
    (hopens : P.OpensOnlyEncrypted) (now : Instant) (events : List SystemEvent) (σ : System S)
    (hvalid : Valid P ops cfg users master (System.init now) events)
    (hσ : σ = (System.init now).run P ops cfg users master events) :
    (∀ i sid keys, (σ.clients i).sess.phase = .session sid keys →
      ∃ a, (σ.clients i).attempt = some a ∧ (i, a) ∈ σ.auths ∧
        ∃ v ∈ σ.server.verdicts, v.Accepts P master a sid keys) ∧
    (∀ v ∈ σ.server.verdicts, ∀ sid keys proof hkey user,
      v.result = .accepted sid keys proof hkey user →
        ∃! n : ℕ, ∃ i a, σ.auths[n]? = some (i, a) ∧ v.Accepts P master a sid keys) ∧
    σ.server.verdicts.Pairwise (fun v v' => ∀ sid keys proof hkey user sid' keys' proof' hkey' user',
      v.result = .accepted sid keys proof hkey user →
      v'.result = .accepted sid' keys' proof' hkey' user' →
        keys ≠ keys' ∧ ∀ a, v.Accepts P master a sid keys → ¬ v'.Accepts P master a sid' keys') := by
  obtain ⟨ledger, hr, hva⟩ := run_verdictsAgree (Recorded.init now) (init_verdictsAgree now) hc hopens
    ops users events hvalid
  rw [← hσ] at hr hva
  refine ⟨?_, ?_, ?_⟩
  · intro i sid keys hphase
    obtain ⟨-, a, ha, rfl, hack⟩ := (hr.clients.parties i).session sid keys hphase
    have hmem := (hr.clients.parties i).attempt a ha
    obtain ⟨v, hv, j, b, hb, hsn, hcn, hacc⟩ := hva.acked _ _ _ hack
    obtain ⟨rfl, rfl⟩ := hr.clients.attempt_unique hb hmem hsn
    exact ⟨b, ha, hmem, v, hv, hacc⟩
  · intro v hv sid keys proof hkey user hres
    obtain ⟨i, a, ha, hacc, -⟩ := hva.accepted v hv _ _ _ _ _ hres
    obtain ⟨n, hn⟩ := List.mem_iff_getElem?.mp ha
    refine ⟨n, ⟨i, a, hn, hacc⟩, ?_⟩
    rintro m ⟨j, b, hm, hacc'⟩
    -- Both attempts carry the nonce of the verdict, and no two attempts share one.
    have hsn : b.serverNonce = a.serverNonce :=
      Option.some.inj (hacc'.pending.symm.trans hacc.pending)
    have hget : (σ.auths.map (fun x => x.2.serverNonce))[m]? =
        (σ.auths.map (fun x => x.2.serverNonce))[n]? := by
      rw [List.getElem?_map, List.getElem?_map, hm, hn]
      exact congrArg some hsn
    have hlt : m < (σ.auths.map (fun x => x.2.serverNonce)).length := by
      rw [List.length_map]
      exact (List.getElem?_eq_some_iff.mp hm).1
    exact (List.getElem?_inj hlt hr.clients.apart).mp hget
  · refine hva.apart.imp_of_mem ?_
    intro v v' hv hv' hap sid keys proof hkey user sid' keys' proof' hkey' user' hres hres'
    obtain ⟨i, a, ha, hacc, -⟩ := hva.accepted v hv _ _ _ _ _ hres
    obtain ⟨j, b, hb, hacc', -⟩ := hva.accepted v' hv' _ _ _ _ _ hres'
    have hne := hap a.serverNonce
      ((Verdict.acceptedNonce_of_result hres).trans hacc.pending)
    rw [Verdict.acceptedNonce_of_result hres'] at hne
    refine ⟨?_, ?_⟩
    · rintro rfl
      obtain ⟨hsn, -⟩ := SessionKeys.derive_injective hc (hacc.keys_eq.symm.trans hacc'.keys_eq)
      exact hne (hsn ▸ hacc'.pending)
    · intro x hx hx'
      have hsn : x.serverNonce = a.serverNonce :=
        Option.some.inj (hx.pending.symm.trans hacc.pending)
      exact hne (hsn ▸ hx'.pending)

/-! A concrete handshake, over primitives whose tags name the sealings of a table. -/

theorem tablePrimitives_opensOnlyEncrypted (table : List SealOp) :
    (tablePrimitives table).OpensOnlyEncrypted := by
  intro key nonce aad c msg hd
  simp only [tablePrimitives] at hd ⊢
  split at hd
  next hcut =>
    obtain rfl := Option.some.inj hd
    exact hcut
  next => exact absurd hd (by simp)

theorem padTo_append {n : ℕ} {as : Bytes} (bs : Bytes) (hn : n ≤ as.length) :
    padTo n (as ++ bs) = padTo n as := by
  rw [padTo, padTo, List.append_assoc, List.take_append_of_le_length hn,
    List.take_append_of_le_length hn]

theorem tablePrimitives_collisionFree (table : List SealOp) :
    CollisionFree (tablePrimitives table) sampleMaster := by
  have hpad : ∀ a ∈ keyLabels, ∀ b ∈ keyLabels, a ≠ b → padTo 16 (a ++ List.replicate 32 0) ≠
      padTo 16 (b ++ List.replicate 32 0) := by decide +kernel
  have hmaster : sampleMaster.bytes.toList = List.replicate 32 0 := by decide +kernel
  intro a ha b hb sn cn sn' cn' he
  have hlist := congrArg List.Vector.toList he
  simp only [h, tablePrimitives, edgeDigest, hmaster, List.Vector.toList_mk] at hlist
  have hhead : ∀ x ∈ keyLabels, ∀ u v : UInt64,
      padTo 16 (x ++ List.replicate 32 0 ++ ofU64 u ++ ofU64 v) =
        padTo 16 (x ++ List.replicate 32 0) := by
    intro x hx u v
    rw [List.append_assoc _ (ofU64 u), padTo_append]
    simp
  have htail : ∀ x ∈ keyLabels, ∀ u v : UInt64,
      padTo 16 ((x ++ List.replicate 32 0 ++ ofU64 u ++ ofU64 v).drop
        ((x ++ List.replicate 32 0 ++ ofU64 u ++ ofU64 v).length - 16)) = ofU64 u ++ ofU64 v := by
    intro x hx u v
    have hdrop : (x ++ List.replicate 32 0 ++ (ofU64 u ++ ofU64 v)).drop
        (x ++ List.replicate 32 (0 : UInt8)).length = ofU64 u ++ ofU64 v := List.drop_left
    have hlen : (x ++ List.replicate 32 0 ++ ofU64 u ++ ofU64 v).length - 16 =
        (x ++ List.replicate 32 (0 : UInt8)).length := by simp
    rw [hlen, List.append_assoc (x ++ List.replicate 32 0), hdrop, padTo,
      List.take_append_of_le_length (by simp)]
    exact List.take_of_length_le (by simp)
  rw [hhead a ha, hhead b hb, htail a ha, htail b hb] at hlist
  obtain ⟨hl, hr⟩ := List.append_inj hlist (by simp [padTo_length])
  obtain ⟨hsn, hcn⟩ := List.append_inj hr (by simp)
  refine ⟨?_, ofU64_injective hsn, ofU64_injective hcn⟩
  by_contra hne
  exact hpad a ha b hb hne hl

def taggedBy (table log : List SealOp) (raw : Bytes) : Bool :=
  match decode raw with
  | .error _ => true
  | .ok l =>
    match l.payload.getLast? with
    | none => true
    | some b => decide (b.toNat < table.length) && (table[b.toNat]?).any (fun op => decide (op ∈ log))

theorem unforged_of_taggedBy {table log : List SealOp} {raw : Bytes} (hlen : table.length ≤ 255)
    (ht : taggedBy table log raw = true) :
    Unforged (tablePrimitives table) sampleMaster log raw := by
  intro l hd label _ sn cn nonce cut plain hdec
  generalize hop : (⟨h (tablePrimitives table) label sampleMaster.bytes.toList sn cn, nonce, l.header,
    plain⟩ : SealOp) = op
  have hpay : l.payload.drop cut = plain ++ tableTag table op := by
    rw [← hop]
    exact tablePrimitives_opensOnlyEncrypted table _ _ _ _ _ hdec
  -- The tag ends the payload, wherever the ciphertext begins.
  have hlast : l.payload.getLast? = some (UInt8.ofNat ((table.idxOf? op).getD 255)) := by
    have hsplit := List.take_append_drop cut l.payload
    rw [← hsplit, hpay, ← List.append_assoc, tableTag, tagLen, List.replicate_succ',
      ← List.append_assoc, List.getLast?_concat]
  simp only [taggedBy, hd, hlast, Bool.and_eq_true, decide_eq_true_eq] at ht
  obtain ⟨hlt, hmem⟩ := ht
  rcases hidx : table.idxOf? op with _ | i
  · rw [hidx] at hlt
    exact absurd hlt (by simp only [Option.getD_none]; norm_num; omega)
  · rw [hidx, Option.getD_some] at hlt hmem
    obtain ⟨hi, hget, -⟩ := List.idxOf?_eq_some_iff.mp hidx
    have hsmall : i < UInt8.size := by
      rw [show UInt8.size = 256 from rfl]
      omega
    have hnat : (UInt8.ofNat i).toNat = i := UInt8.toNat_ofNat_of_lt' hsmall
    rw [hnat, List.getElem?_eq_getElem hi, Option.any_some, decide_eq_true_eq] at hmem
    rw [← hget]
    exact hmem

def checkAllowed {S : Type} (table : List SealOp) (σ : System S) : SystemEvent → Bool
  | .server env (.frame _ _ raw) =>
    decide (env.serverNonce ∉ σ.server.nonces) && taggedBy table σ.log raw
  | .server env _ => decide (env.serverNonce ∉ σ.server.nonces)
  | .client _ (.discover id nonce) => decide (id ∉ σ.discoverIds) && decide (nonce ∉ σ.discoverNonces)
  | .client _ (.resp _ raw nonce) => decide (nonce ∉ σ.clientNonces) && taggedBy table σ.log raw
  | .client _ (.reply _ raw) => taggedBy table σ.log raw
  | .client _ (.loop _ (.frame raw)) => taggedBy table σ.log raw
  | .client _ _ => true

theorem allowed_of_check {S : Type} {table : List SealOp} (hlen : table.length ≤ 255) {σ : System S}
    {e : SystemEvent} (hcheck : checkAllowed table σ e = true) :
    Allowed (tablePrimitives table) sampleMaster σ e := by
  cases e with
  | server env e =>
    cases e with
    | frame mac ifindex raw =>
      simp only [checkAllowed, Bool.and_eq_true, decide_eq_true_eq] at hcheck
      refine ⟨hcheck.1, ?_⟩
      intro mac' ifindex' raw' heq
      injection heq with _ _ hraw
      rw [← hraw]
      exact unforged_of_taggedBy hlen hcheck.2
    | _ =>
      simp only [checkAllowed, decide_eq_true_eq] at hcheck
      exact ⟨hcheck, by simp⟩
  | client i a =>
    cases a with
    | discover id nonce => simpa [checkAllowed, Allowed] using hcheck
    | resp src raw nonce =>
      simp only [checkAllowed, Bool.and_eq_true, decide_eq_true_eq] at hcheck
      exact ⟨hcheck.1, unforged_of_taggedBy hlen hcheck.2⟩
    | reply src raw => exact unforged_of_taggedBy hlen hcheck
    | loop env e =>
      cases e with
      | frame raw =>
        intro raw' heq
        injection heq with hraw
        rw [← hraw]
        exact unforged_of_taggedBy hlen hcheck
      | _ => simp [Allowed]
    | _ => trivial

def checkValid {S Sock : Type} (ops : StackOps S Sock) (table : List SealOp) (cfg : ServerConfig)
    (users : ℕ → ClientConfig) : System S → List SystemEvent → Bool
  | _, [] => true
  | σ, e :: es => checkAllowed table σ e && checkValid ops table cfg users
      (σ.step (tablePrimitives table) ops cfg users sampleMaster e) es

theorem valid_of_check {S Sock : Type} {ops : StackOps S Sock} {table : List SealOp}
    (hlen : table.length ≤ 255) {cfg : ServerConfig} {users : ℕ → ClientConfig} {σ : System S}
    {events : List SystemEvent} (hcheck : checkValid ops table cfg users σ events = true) :
    Valid (tablePrimitives table) ops cfg users sampleMaster σ events := by
  induction events generalizing σ with
  | nil => trivial
  | cons e es ih =>
    simp only [checkValid, Bool.and_eq_true] at hcheck
    exact ⟨allowed_of_check hlen hcheck.1, ih hcheck.2⟩

def samplePlainDiscover : Bytes := encodeDiscoverPayload 7 "pc" none

def sampleTable : List SealOp :=
  ((PreSharedKey.derive sampleP sampleMaster).sealDiscover sampleP 0 sampleNonce
      samplePlainDiscover).op ::
    [Entry.resp ⟨7, 1⟩, Entry.authReq 1 2 "admin", Entry.ack 1 1 2].map
      (Entry.op sampleP sampleConfig sampleMaster)

def handshakeP : Primitives := tablePrimitives sampleTable

def sampleUsers : ℕ → ClientConfig := fun _ => ⟨"pc", "", "admin"⟩

def sampleHandshake : List SystemEvent :=
  let sealed := HandshakeKeys.derive handshakeP sampleMaster 1
  [.client 0 (.discover 7 sampleNonce),
    .server (sampleEnv 0 1) (.frame sampleMac 1 ((PreSharedKey.derive handshakeP
      sampleMaster).sealDiscover handshakeP 0 sampleNonce samplePlainDiscover).raw),
    .client 0 (.resp sampleServerMac
      (ServerSession.respFrame handshakeP sampleMaster "" [22] ⟨7, 1⟩).raw 2),
    .server (sampleEnv 1 2) (.frame sampleMac 1
      (Entry.authReqFrame handshakeP sampleMaster 1 2 "admin").raw),
    .client 0 (.reply sampleServerMac (sealed.sealFrame handshakeP .s2c typeAuthAck 1 hsAuthAck
      (encodeAuthAckPayload (authProofS2C handshakeP sampleMaster 1 2))).raw)]

def sampleAgreed : System TableStack :=
  (System.init 0).run handshakeP tableStackOps sampleConfig sampleUsers sampleMaster sampleHandshake

theorem run_agreement_sample :
    (sampleAgreed.clients 0).sess.phase =
        .session 1 (.derive handshakeP sampleMaster 1 2) ∧
      ∃ a, (sampleAgreed.clients 0).attempt = some a ∧ (0, a) ∈ sampleAgreed.auths ∧
        ∃ v ∈ sampleAgreed.server.verdicts,
          v.Accepts handshakeP sampleMaster a 1 (.derive handshakeP sampleMaster 1 2) := by
  have hphase : (sampleAgreed.clients 0).sess.phase =
      .session 1 (.derive handshakeP sampleMaster 1 2) := by decide +kernel
  have hvalid : Valid handshakeP tableStackOps sampleConfig sampleUsers sampleMaster
      (System.init 0) sampleHandshake := valid_of_check (by decide) (by decide +kernel)
  exact ⟨hphase, (run_agreement handshakeP tableStackOps sampleConfig sampleUsers sampleMaster
    (tablePrimitives_collisionFree _) (tablePrimitives_opensOnlyEncrypted _) 0 sampleHandshake
    sampleAgreed hvalid rfl).1 0 1 _ hphase⟩

end LandscapeKit.Flare
