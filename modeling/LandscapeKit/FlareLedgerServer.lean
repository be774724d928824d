import LandscapeKit.FlareLedger

/-!
What the server adds to the ledger. A server nonce is drawn fresh, answered with RESPs of
one discover id, and spent by at most one ACK or NACK, since both take it out of its peer.
-/

namespace LandscapeKit.Flare

open Bytes

theorem SessionKeys.derive_injective {P : Primitives} {master : MasterKey}
    (hc : CollisionFree P master) {sn cn sn' cn' : UInt64}
    (he : SessionKeys.derive P master sn cn = SessionKeys.derive P master sn' cn') :
    sn = sn' ∧ cn = cn' := by
  have hk : h P (KeyKind.session .c2s).label master.bytes.toList sn cn =
      h P (KeyKind.session .c2s).label master.bytes.toList sn' cn' := congrArg SessionKeys.c2s he
  exact (hc.kind_eq hk).2

theorem of_update_none {ι α : Type} [DecidableEq ι] {f : ι → Option α} {i j : ι} {a : α}
    (h : Function.update f i none j = some a) : j ≠ i ∧ f j = some a := by
  by_cases hji : j = i
  · rw [hji, Function.update_self] at h
    exact absurd h (by simp)
  · rw [Function.update_of_ne hji] at h
    exact ⟨hji, h⟩

/-- The handshakes that wait for an AUTH_REQ: each was answered, none of their nonces is
spent, and no two peers wait with the same nonce. -/
structure Standing (g : Mac → Option PendingHandshake) (ledger : List Entry) : Prop where
  answered : ∀ m pd, g m = some pd → Entry.resp pd ∈ ledger
  unspent : ∀ m pd, g m = some pd → ∀ e ∈ ledger, e.spends ≠ some pd.serverNonce
  apart : ∀ m m' pd pd', g m = some pd → g m' = some pd' → pd.serverNonce = pd'.serverNonce →
    m = m'

namespace Standing

variable {g : Mac → Option PendingHandshake} {ledger : List Entry}

theorem of_subset (h : Standing g ledger) {g' : Mac → Option PendingHandshake}
    (hg : ∀ m pd, g' m = some pd → g m = some pd) : Standing g' ledger :=
  ⟨fun m pd hm => h.answered m pd (hg m pd hm), fun m pd hm => h.unspent m pd (hg m pd hm),
    fun m m' pd pd' hm hm' => h.apart m m' pd pd' (hg m pd hm) (hg m' pd' hm')⟩

theorem append (h : Standing g ledger) {more : List Entry}
    (hs : ∀ m pd, g m = some pd → ∀ e ∈ more, e.spends ≠ some pd.serverNonce) :
    Standing g (ledger ++ more) := by
  refine ⟨fun m pd hm => List.mem_append_left _ (h.answered m pd hm), ?_, h.apart⟩
  intro m pd hm e he
  rcases List.mem_append.mp he with he | he
  · exact h.unspent m pd hm e he
  · exact hs m pd hm e he

theorem spend (h : Standing g ledger) {mac : Mac} {pd : PendingHandshake} (hm : g mac = some pd)
    {e : Entry} (he : e.spends = some pd.serverNonce) :
    Standing (Function.update g mac none) (ledger ++ [e]) := by
  apply (h.of_subset (fun m pd' hm' => (of_update_none hm').2)).append
  intro m pd' hm' e' he'
  obtain rfl := List.mem_singleton.mp he'
  obtain ⟨hne, hg⟩ := of_update_none hm'
  rw [he]
  intro heq
  exact hne (h.apart m mac pd' pd hg hm (Option.some.inj heq).symm)

theorem set_new (h : Standing g ledger) (mac : Mac) {pd : PendingHandshake}
    (hfree : ∀ e ∈ ledger, e.spends ≠ some pd.serverNonce)
    (hap : ∀ m pd', g m = some pd' → pd'.serverNonce ≠ pd.serverNonce) :
    Standing (Function.update g mac (some pd)) (ledger ++ [.resp pd]) := by
  have hcases : ∀ m pd', Function.update g mac (some pd) m = some pd' →
      (m = mac ∧ pd' = pd) ∨ (m ≠ mac ∧ g m = some pd') := by
    intro m pd' hm'
    by_cases hmm : m = mac
    · rw [hmm, Function.update_self] at hm'
      exact Or.inl ⟨hmm, (Option.some.inj hm').symm⟩
    · rw [Function.update_of_ne hmm] at hm'
      exact Or.inr ⟨hmm, hm'⟩
  refine ⟨?_, ?_, ?_⟩
  · intro m pd' hm'
    rcases hcases m pd' hm' with ⟨-, rfl⟩ | ⟨-, hg⟩
    · simp
    · exact List.mem_append_left _ (h.answered m pd' hg)
  · intro m pd' hm' e he
    rcases List.mem_append.mp he with hold | hnew
    · rcases hcases m pd' hm' with ⟨-, heq⟩ | ⟨-, hg⟩
      · rw [heq]
        exact hfree e hold
      · exact h.unspent m pd' hg e hold
    · rw [List.mem_singleton.mp hnew]
      simp [Entry.spends]
  · intro m m' pd₁ pd₂ hm hm' heq
    rcases hcases m pd₁ hm with ⟨rfl, rfl⟩ | ⟨-, hg₁⟩
    · rcases hcases m' pd₂ hm' with ⟨rfl, rfl⟩ | ⟨-, hg₂⟩
      · rfl
      · exact absurd heq.symm (hap m' pd₂ hg₂)
    · rcases hcases m' pd₂ hm' with ⟨rfl, rfl⟩ | ⟨-, hg₂⟩
      · exact absurd heq (hap m pd₁ hg₁)
      · exact h.apart m m' pd₁ pd₂ hg₁ hg₂ heq

end Standing

namespace Entry

theorem spends_nonce {e : Entry} {sn : UInt64} (h : e.spends = some sn) :
    e.sender = .s2c ∧ e.serverNonce = sn ∧ ∀ d sn' cn, e.isSession d sn' cn = false := by
  cases e with
  | ack sn' sid cn => exact ⟨rfl, Option.some.inj h, fun _ _ _ => rfl⟩
  | nack sn' reason => exact ⟨rfl, Option.some.inj h, fun _ _ _ => rfl⟩
  | _ => exact absurd h (by simp [spends])

theorem spends_of_slot {e e' : Entry} {sn : UInt64} (h : e.spends = some sn)
    (hs : e'.slot = e.slot) : e'.spends = some sn := by
  cases e with
  | ack sn' sid cn =>
    cases e' with
    | ack sn'' sid' cn' =>
      obtain rfl : sn'' = sn' := Slot.ack.inj hs
      exact h
    | _ => exact absurd hs (by simp [slot])
  | nack sn' reason =>
    cases e' with
    | nack sn'' reason' =>
      obtain rfl : sn'' = sn' := Slot.nack.inj hs
      exact h
    | _ => exact absurd hs (by simp [slot])
  | _ => exact absurd h (by simp [spends])

theorem eq_resp_of_slot {e : Entry} {sn : UInt64} (hs : e.slot = .resp sn) :
    ∃ id, e = resp ⟨id, sn⟩ := by
  cases e with
  | resp pd =>
    obtain rfl := Slot.resp.inj hs
    exact ⟨pd.discoverId, rfl⟩
  | _ => exact absurd hs (by simp [slot])

end Entry

namespace Server

variable {S Sock : Type}

def pendingAt (s : Server S) (mac : Mac) : Option PendingHandshake :=
  (s.peers.lookup mac).bind (fun p => p.sess.pending)

def cryptoAt (s : Server S) (mac : Mac) : Option SessionCrypto :=
  (s.peers.lookup mac).bind (fun p => p.crypto)

theorem SetAt.pendingAt {mac : Mac} {o : Option (Peer S)} {s s' : Server S} (h : SetAt mac o s s') :
    s'.pendingAt = Function.update s.pendingAt mac (o.bind (fun p => p.sess.pending)) := by
  funext m
  rw [Server.pendingAt, h m]
  by_cases hm : m = mac
  · rw [if_pos hm, hm, Function.update_self]
  · rw [if_neg hm, Function.update_of_ne hm]
    rfl

theorem SetAt.cryptoAt {mac : Mac} {o : Option (Peer S)} {s s' : Server S} (h : SetAt mac o s s') :
    s'.cryptoAt = Function.update s.cryptoAt mac (o.bind (fun p => p.crypto)) := by
  funext m
  rw [Server.cryptoAt, h m]
  by_cases hm : m = mac
  · rw [if_pos hm, hm, Function.update_self]
  · rw [if_neg hm, Function.update_of_ne hm]
    rfl

variable (P : Primitives) (cfg : ServerConfig) (master : MasterKey)

structure Enters (s : Server S) (ledger : List Entry) : Prop where
  drawn : ∀ e ∈ ledger, e.sender = .s2c → e.serverNonce ∈ s.nonces
  standing : Standing s.pendingAt ledger
  sealers : Sealers P master .s2c s.cryptoAt ledger

structure Adds (s s' : Server S) (ledger more : List Entry) : Prop where
  calls : s'.sealed = s.sealed ++ more.map (Entry.op P cfg master)
  sender : ∀ e ∈ more, e.sender = .s2c
  ordered : Ordered (ledger ++ more)
  enters : Enters P master s' (ledger ++ more)

variable {P cfg master}

theorem Enters.of_eq {s s' : Server S} {ledger : List Entry} (h : Enters P master s ledger)
    (hp : s'.pendingAt = s.pendingAt) (hc : s'.cryptoAt = s.cryptoAt) (hn : s'.nonces = s.nonces) :
    Enters P master s' ledger := by
  refine ⟨?_, ?_, ?_⟩
  · rw [hn]
    exact h.drawn
  · rw [hp]
    exact h.standing
  · rw [hc]
    exact h.sealers

theorem Enters.append_client {s : Server S} {ledger more : List Entry}
    (h : Enters P master s ledger) (hm : ∀ e ∈ more, e.sender = .c2s) :
    Enters P master s (ledger ++ more) := by
  have hspends : ∀ e ∈ more, e.spends = none := by
    intro e he
    have hs := hm e he
    cases e with
    | ack sn sid cn => exact absurd hs (by simp [Entry.sender])
    | nack sn reason => exact absurd hs (by simp [Entry.sender])
    | _ => rfl
  refine ⟨?_, h.standing.append ?_, h.sealers.append (sealedUnder_of_sender (by decide) hm)⟩
  · intro e he hs
    rcases List.mem_append.mp he with he | he
    · exact h.drawn e he hs
    · exact absurd ((hm e he).symm.trans hs) (by decide)
  · intro m pd _ e he
    rw [hspends e he]
    simp

theorem Adds.of_eq {s s' : Server S} {ledger : List Entry} (ho : Ordered ledger)
    (h : Enters P master s ledger) (hw : s'.sealed = s.sealed)
    (hp : s'.pendingAt = s.pendingAt) (hc : s'.cryptoAt = s.cryptoAt) (hn : s'.nonces = s.nonces) :
    Adds P cfg master s s' ledger [] := by
  refine ⟨?_, by simp, ?_, ?_⟩
  · rw [hw, List.map_nil, List.append_nil]
  · rw [List.append_nil]
    exact ho
  · rw [List.append_nil]
    exact h.of_eq hp hc hn

theorem Enters.fresh {s : Server S} {ledger : List Entry} (h : Enters P master s ledger)
    {sn : UInt64} (hn : sn ∉ s.nonces) : ∀ e ∈ ledger, e.sender = .s2c → e.serverNonce ≠ sn := by
  rintro e he hs rfl
  exact hn (h.drawn e he hs)

theorem adds_resp {s s' : Server S} {ledger : List Entry} (ho : Ordered ledger)
    (h : Enters P master s ledger) (mac : Mac) {pd : PendingHandshake}
    (hnew : s.pendingAt mac = some pd ∧ s'.nonces = s.nonces ∨
      pd.serverNonce ∉ s.nonces ∧ s'.nonces = s.nonces ++ [pd.serverNonce])
    (hp : s'.pendingAt = Function.update s.pendingAt mac (some pd)) (hc : s'.cryptoAt = s.cryptoAt)
    (hw : s'.sealed = s.sealed ++ [(Entry.resp pd).op P cfg master]) :
    Adds P cfg master s s' ledger [.resp pd] := by
  have hsealers : Sealers P master .s2c s'.cryptoAt (ledger ++ [.resp pd]) := by
    rw [hc]
    exact h.sealers.append (fun _ _ => rfl)
  rcases hnew with ⟨hstand, hn⟩ | ⟨hfresh, hn⟩
  · have hmem := h.standing.answered mac pd hstand
    refine ⟨hw, by simp [Entry.sender], ho.append_one _ ?_ (fun _ _ _ => rfl), ⟨?_, ?_, hsealers⟩⟩
    · exact fun e' he' hs => ho.distinct e' he' _ hmem hs
    · intro e he hs
      rw [hn]
      rcases List.mem_append.mp he with hold | hlast
      · exact h.drawn e hold hs
      · rw [List.mem_singleton.mp hlast] at hs ⊢
        exact h.drawn _ hmem hs
    · rw [hp, Function.update_eq_self_iff.mpr hstand.symm]
      apply h.standing.append
      intro m pd' _ e he
      rw [List.mem_singleton.mp he]
      simp [Entry.spends]
  · have hnone := h.fresh hfresh
    refine ⟨hw, by simp [Entry.sender], ho.append_one _ ?_ (fun _ _ _ => rfl), ⟨?_, ?_, hsealers⟩⟩
    · intro e' he' hs
      obtain ⟨id, rfl⟩ := Entry.eq_resp_of_slot hs
      exact absurd rfl (hnone _ he' rfl)
    · intro e he hs
      rw [hn, List.mem_append]
      rcases List.mem_append.mp he with hold | hlast
      · exact Or.inl (h.drawn e hold hs)
      · rw [List.mem_singleton.mp hlast]
        exact Or.inr (List.mem_singleton.mpr rfl)
    · rw [hp]
      apply h.standing.set_new mac
      · intro e he hs
        obtain ⟨hsend, hsn, -⟩ := Entry.spends_nonce hs
        exact hnone e he hsend hsn
      · intro m pd' hm
        exact hnone _ (h.standing.answered m pd' hm) rfl

theorem adds_reply {s s' : Server S} {ledger : List Entry} (ho : Ordered ledger)
    (h : Enters P master s ledger) {mac : Mac} {pd : PendingHandshake} {e : Entry}
    (hm : s.pendingAt mac = some pd) (he : e.spends = some pd.serverNonce)
    (hp : s'.pendingAt = Function.update s.pendingAt mac none) (hn : s'.nonces = s.nonces)
    (hs : Sealers P master .s2c s'.cryptoAt (ledger ++ [e]))
    (hw : s'.sealed = s.sealed ++ [e.op P cfg master]) : Adds P cfg master s s' ledger [e] := by
  obtain ⟨hsend, hsn, hsess⟩ := Entry.spends_nonce he
  refine ⟨hw, ?_, ho.append_one e ?_ hsess, ⟨?_, ?_, hs⟩⟩
  · intro e' he'
    rw [List.mem_singleton.mp he', hsend]
  · intro e' he' hslot
    exact absurd (Entry.spends_of_slot he hslot) (h.standing.unspent mac pd hm e' he')
  · intro e' he' hs'
    rw [hn]
    rcases List.mem_append.mp he' with hold | hlast
    · exact h.drawn e' hold hs'
    · rw [List.mem_singleton.mp hlast, hsn]
      exact h.drawn _ (h.standing.answered mac pd hm) rfl
  · rw [hp]
    exact h.standing.spend hm he

theorem pendingAt_of_lookup {s : Server S} {mac : Mac} {p : Peer S}
    (hl : s.peers.lookup mac = some p) : s.pendingAt mac = p.sess.pending := by
  rw [pendingAt, hl, Option.bind_some]

theorem cryptoAt_of_lookup {s : Server S} {mac : Mac} {p : Peer S}
    (hl : s.peers.lookup mac = some p) : s.cryptoAt mac = p.crypto := by
  rw [cryptoAt, hl, Option.bind_some]

theorem SetAt.cryptoAt_same {mac : Mac} {p' : Peer S} {s s' : Server S}
    (h : SetAt mac (some p') s s') (hc : p'.crypto = s.cryptoAt mac) :
    s'.cryptoAt = s.cryptoAt := by
  rw [h.cryptoAt, Option.bind_some, hc, Function.update_eq_self]

theorem SetAt.pendingAt_same {mac : Mac} {p' : Peer S} {s s' : Server S}
    (h : SetAt mac (some p') s s') (hp : p'.sess.pending = s.pendingAt mac) :
    s'.pendingAt = s.pendingAt := by
  rw [h.pendingAt, Option.bind_some, hp, Function.update_eq_self]

variable {env : ServerEnv}

theorem discover_adds {s s' : Server S} {ledger : List Entry} (ho : Ordered ledger)
    (h : Enters P master s ledger) (hfresh : env.serverNonce ∉ s.nonces) {mac : Mac} {l : Frame}
    (hout : DiscoverOutcome P cfg master env mac l s s') :
    (∃ more, Adds P cfg master s s' ledger more ∧ ∀ e ∈ more, e.spends = none) ∧
      s'.verdicts = s.verdicts := by
  cases hout with
  | ignored hp hh hw =>
    refine ⟨⟨[], Adds.of_eq ho h hw ?_ ?_ (nonces_of_hand hh), by simp⟩, verdicts_of_hand hh⟩
    · unfold pendingAt
      rw [hp]
    · unfold cryptoAt
      rw [hp]
  | answered id name token hopen p p' hp0 hp hsess hcrypto hv hg hn hw =>
    have hpend : s.pendingAt mac = p.sess.pending := by
      rw [hp0, pendingAt]
      cases s.peers.lookup mac <;> rfl
    have hcr : s.cryptoAt mac = p.crypto := by
      rw [hp0, cryptoAt]
      cases s.peers.lookup mac <;> rfl
    refine ⟨⟨_, adds_resp ho h mac ?_ ?_ (hp.cryptoAt_same (hcrypto.trans hcr.symm)) hw,
      by simp [Entry.spends]⟩, hv⟩
    · rw [hpend, hn]
      rcases hpd : p.sess.pending with _ | pd
      · right
        simp only [ServerSession.pendingFor, ServerSession.pendingDiscoverId, hpd, startsNewAttempt,
          Option.map_none]
        exact ⟨hfresh, rfl⟩
      · by_cases hid : pd.discoverId = id
        · left
          simp [ServerSession.pendingFor, ServerSession.pendingDiscoverId, hpd, startsNewAttempt,
            hid]
        · right
          have hne : (some pd.discoverId != some id) = true := by simpa using hid
          simp only [ServerSession.pendingFor, ServerSession.pendingDiscoverId, hpd,
            startsNewAttempt, Option.map_some, hid, hne, if_true, if_false]
          exact ⟨hfresh, trivial⟩
    · rw [hp.pendingAt, Option.bind_some, hsess]

theorem session_adds {s s' : Server S} {ledger : List Entry} (ho : Ordered ledger)
    (h : Enters P master s ledger) (hmoves : SessionMoves s s') :
    ∃ more, Adds P cfg master s s' ledger more ∧ ∀ e ∈ more, e.spends = none := by
  refine hmoves.preserves (I := fun x => ∃ more, Adds P cfg master s x ledger more ∧
    ∀ e ∈ more, e.spends = none) ?_ ⟨[], Adds.of_eq ho h rfl rfl rfl rfl, by simp⟩
  rintro s₁ s₂ ⟨more, hadds, hspends⟩ hmove
  cases hmove with
  | idle hp hh hw =>
    refine ⟨more, ⟨hw.trans hadds.calls, hadds.sender, hadds.ordered, hadds.enters.of_eq ?_ ?_
      (nonces_of_hand hh)⟩, hspends⟩
    · unfold pendingAt
      rw [hp]
    · unfold cryptoAt
      rw [hp]
  | remove mac hp hh hw =>
    refine ⟨more, ⟨hw.trans hadds.calls, hadds.sender, hadds.ordered, ?_, ?_, ?_⟩, hspends⟩
    · rw [nonces_of_hand hh]
      exact hadds.enters.drawn
    · rw [hp.pendingAt]
      exact hadds.enters.standing.of_subset (fun m pd hm => (of_update_none hm).2)
    · rw [hp.cryptoAt]
      exact hadds.enters.sealers.of_subset (fun m c hm => (of_update_none hm).2)
  | sealing mac p p' ops hl hp hsess hh hw hrun =>
    have hpend : s₂.pendingAt = s₁.pendingAt :=
      hp.pendingAt_same (by rw [hsess, pendingAt_of_lookup hl])
    rcases hrun with ⟨hcr, rfl⟩ | ⟨c, c', hcr, hcr', hrun⟩
    · refine ⟨more, ⟨?_, hadds.sender, hadds.ordered, hadds.enters.of_eq hpend
        (hp.cryptoAt_same (by rw [hcr, cryptoAt_of_lookup hl])) (nonces_of_hand hh)⟩, hspends⟩
      rw [hw, List.append_nil, hadds.calls]
    · obtain ⟨sn, cn, frames, hk, hmap, hframes, hord, hseal⟩ := hadds.enters.sealers.run cfg
        hadds.ordered (by rw [cryptoAt_of_lookup hl, hcr]) hrun
      have hsp : ∀ e ∈ frames, e.spends = none := by
        intro e he
        obtain ⟨number, aad, plain, rfl⟩ := hframes e he
        rfl
      refine ⟨more ++ frames, ⟨?_, ?_, ?_, ⟨?_, ?_, ?_⟩⟩, ?_⟩
      · rw [hw, hadds.calls, List.map_append, hmap, List.append_assoc]
      · intro e he
        rcases List.mem_append.mp he with he | he
        · exact hadds.sender e he
        · obtain ⟨number, aad, plain, rfl⟩ := hframes e he
          rfl
      · rwa [← List.append_assoc]
      · intro e he hs
        rw [nonces_of_hand hh]
        rw [← List.append_assoc] at he
        rcases List.mem_append.mp he with hold | hnew
        · exact hadds.enters.drawn e hold hs
        · -- The session was opened with an ACK of the same nonce.
          obtain ⟨number, aad, plain, rfl⟩ := hframes e hnew
          obtain ⟨-, sid, hack⟩ := hord.numbered _ _ _ _ _ _ (List.mem_append_right _ hnew)
          rcases List.mem_append.mp hack with hin | hin
          · exact hadds.enters.drawn (.ack sn sid cn) hin rfl
          · obtain ⟨_, _, _, hbad⟩ := hframes _ hin
            exact absurd hbad (by simp)
      · rw [← List.append_assoc, hpend]
        apply hadds.enters.standing.append
        intro m pd _ e he
        rw [hsp e he]
        simp
      · rw [← List.append_assoc, hp.cryptoAt, Option.bind_some, hcr']
        exact hseal
      · intro e he
        rcases List.mem_append.mp he with he | he
        · exact hspends e he
        · exact hsp e he

def Quiet (P : Primitives) (cfg : ServerConfig) (master : MasterKey) (s s' : Server S)
    (ledger : List Entry) : Prop :=
  ∃ more vs, Adds P cfg master s s' ledger more ∧ (∀ sn sid cn, Entry.ack sn sid cn ∉ more) ∧
    s'.verdicts = s.verdicts ++ vs ∧
    ∀ v ∈ vs, ∀ sid keys proof hkey user, v.result ≠ .accepted sid keys proof hkey user

def Accepts (P : Primitives) (cfg : ServerConfig) (master : MasterKey) (env : ServerEnv)
    (l : Frame) (s s' : Server S) (ledger : List Entry) : Prop :=
  ∃ mac pd sid plain req, s.pendingAt mac = some pd ∧
    (HandshakeKeys.derive P master pd.serverNonce).openFrame P .c2s hsAuthReq l = some plain ∧
    decodeAuthReqPayload plain = .ok req ∧
    Adds P cfg master s s' ledger [.ack pd.serverNonce sid req.nonce] ∧
    s'.verdicts = s.verdicts ++ [⟨env.now, mac, l, some pd,
      .accepted sid (.derive P master pd.serverNonce req.nonce)
        (authProofS2C P master pd.serverNonce req.nonce)
        (.derive P master pd.serverNonce) req.user⟩]

theorem Quiet.of_spends_none {s s' : Server S} {ledger : List Entry}
    (h : ∃ more, Adds P cfg master s s' ledger more ∧ ∀ e ∈ more, e.spends = none)
    (hv : s'.verdicts = s.verdicts) : Quiet P cfg master s s' ledger := by
  obtain ⟨more, hadds, hspends⟩ := h
  refine ⟨more, [], hadds, ?_, by rw [hv, List.append_nil], by simp⟩
  intro sn sid cn hmem
  exact absurd (hspends _ hmem) (by simp [Entry.spends])

theorem quiet_nack {s s' : Server S} {ledger : List Entry} (ho : Ordered ledger)
    (h : Enters P master s ledger) {mac : Mac} {pd : PendingHandshake} (reason : String)
    {vs : List Verdict} (hm : s.pendingAt mac = some pd)
    (hp : s'.pendingAt = Function.update s.pendingAt mac none)
    (hc : ∀ m c, s'.cryptoAt m = some c → s.cryptoAt m = some c) (hn : s'.nonces = s.nonces)
    (hw : s'.sealed = s.sealed ++ [(Entry.nack pd.serverNonce reason).op P cfg master])
    (hv : s'.verdicts = s.verdicts ++ vs)
    (hvs : ∀ v ∈ vs, ∀ sid keys proof hkey user, v.result ≠ .accepted sid keys proof hkey user) :
    Quiet P cfg master s s' ledger := by
  refine ⟨_, vs, adds_reply ho h (e := .nack pd.serverNonce reason) hm rfl hp hn ?_ hw, ?_, hv, hvs⟩
  · exact (h.sealers.of_subset hc).append (fun _ _ => rfl)
  · intro sn sid cn hmem
    exact absurd (List.mem_singleton.mp hmem) (by simp)

theorem auth_adds (hc : CollisionFree P master) {s s' : Server S} {ledger : List Entry}
    (ho : Ordered ledger) (h : Enters P master s ledger) {mac : Mac} {l : Frame}
    (hout : AuthOutcome P master env mac l s s') :
    Quiet P cfg master s s' ledger ∨ Accepts P cfg master env l s s' ledger := by
  cases hout with
  | ignored hp hh hw =>
    left
    refine Quiet.of_spends_none ⟨[], Adds.of_eq ho h hw ?_ ?_ (nonces_of_hand hh), by simp⟩
      (verdicts_of_hand hh)
    · unfold pendingAt
      rw [hp]
    · unfold cryptoAt
      rw [hp]
  | refused p p' reason hl hlocked hno hp hsess hcrypto hv hn hg hw =>
    left
    have hcr : s'.cryptoAt = s.cryptoAt :=
      hp.cryptoAt_same (by rw [hcrypto, cryptoAt_of_lookup hl])
    rcases hpd : p.sess.pending with _ | pd
    · -- Without a nonce the refusal goes out in clear.
      refine Quiet.of_spends_none ⟨[], Adds.of_eq ho h ?_ ?_ hcr hn, by simp⟩ hv
      · rw [hw, hpd]
        exact List.append_nil _
      · refine hp.pendingAt_same ?_
        rw [hsess, pendingAt_of_lookup hl, hpd]
    · have hat : s.pendingAt mac = some pd := by rw [pendingAt_of_lookup hl, hpd]
      refine quiet_nack ho h reason hat ?_ (fun m c hm => hcr ▸ hm) hn ?_ (hv.trans ?_)
        (List.forall_mem_nil _)
      · rw [hp.pendingAt, Option.bind_some, hsess]
      · rw [hw, hpd]
        rfl
      · rw [List.append_nil]
  | unauthentic p p' reason hl hpass hres hp hsess hcrypto hv hn hg hw =>
    left
    refine ⟨[], _, Adds.of_eq ho h hw ?_ ?_ hn, by simp, hv, by simp⟩
    · exact hp.pendingAt_same (by rw [hsess, pendingAt_of_lookup hl])
    · exact hp.cryptoAt_same (by rw [hcrypto, cryptoAt_of_lookup hl])
  | rejected p o g reason hkey hl hpass hres hp ho' hv hn hg hgc hw =>
    left
    obtain ⟨r, hr⟩ | ⟨pd, hpd, plain, req, hopen, hdec, ⟨-, hr⟩ | ⟨-, hr⟩⟩ :=
      p.sess.verifyAuth_cases P l master
    · rw [hr] at hres
      exact absurd hres (by simp)
    · rw [hr] at hres
      exact absurd hres (by simp)
    · rw [hr] at hres ho'
      injection hres with hreason hhkey
      have hat : s.pendingAt mac = some pd := by rw [pendingAt_of_lookup hl, hpd]
      refine quiet_nack ho h reason hat ?_ ?_ hn ?_ hv (by simp)
      · rw [hp.pendingAt]
        cases o with
        | none => rfl
        | some p' => rw [Option.bind_some, (ho' p' rfl).1]
      · intro m c hm
        rw [hp.cryptoAt] at hm
        cases o with
        | none => exact (of_update_none hm).2
        | some p' =>
          rwa [Option.bind_some, (ho' p' rfl).2, ← cryptoAt_of_lookup hl,
            Function.update_eq_self] at hm
      · rw [hw, ← hhkey]
        rfl
  | accepted p p' sid keys proof hkey user hl hpass hres hp hsess hcrypto hv hn hg hw =>
    right
    obtain ⟨r, hr⟩ | ⟨pd, hpd, plain, req, hopen, hdec, ⟨-, hr⟩ | ⟨-, hr⟩⟩ :=
      p.sess.verifyAuth_cases P l master
    · rw [hr] at hres
      exact absurd hres (by simp)
    · rw [hr] at hres hsess
      injection hres with hsid hkeys hproof hhkey huser
      have hat : s.pendingAt mac = some pd := by rw [pendingAt_of_lookup hl, hpd]
      rw [hpd, ← hkeys, ← hproof, ← hhkey, ← huser] at hv
      refine ⟨mac, pd, sid, plain, req, hat, hopen, hdec, ?_, hv⟩
      refine adds_reply ho h (e := .ack pd.serverNonce sid req.nonce) hat rfl ?_ hn ?_ ?_
      · rw [hp.pendingAt, Option.bind_some, hsess]
      · rw [hp.cryptoAt, Option.bind_some, hcrypto, ← hkeys]
        have hunspent := h.standing.unspent mac pd hat
        -- Whoever held these keys, or sealed under them, was acknowledged with this nonce.
        have happ : Sealers P master .s2c s.cryptoAt
            (ledger ++ [.ack pd.serverNonce sid req.nonce]) := h.sealers.append (fun _ _ => rfl)
        apply happ.set_new
        · exact ⟨sid, by simp⟩
        · rw [sealedUnder_append, show sealedUnder [Entry.ack pd.serverNonce sid req.nonce] .s2c
            pd.serverNonce req.nonce = 0 from rfl, Nat.add_zero]
          apply sealedUnder_eq_zero
          intro number aad plain' hmem
          obtain ⟨-, sid', hack⟩ := ho.numbered _ _ _ _ _ _ hmem
          exact hunspent _ hack rfl
        · intro m c _ hcm hkm
          obtain ⟨sn', cn', ⟨sid', hack⟩, hk', -, -⟩ := h.sealers.keyed m c hcm
          obtain ⟨rfl, -⟩ := SessionKeys.derive_injective hc (hk'.symm.trans hkm)
          exact hunspent _ hack rfl
      · rw [hw, ← hhkey, ← hproof]
        rfl
    · rw [hr] at hres
      exact absurd hres (by simp)

theorem step_adds (hc : CollisionFree P master) (ops : StackOps S Sock) {s : Server S}
    {ledger : List Entry} (ho : Ordered ledger) (h : Enters P master s ledger) (e : Event)
    (hfresh : env.serverNonce ∉ s.nonces) :
    Quiet P cfg master s (s.step P ops cfg master env e) ledger ∨
      ∃ mac ifindex raw l, e = .frame mac ifindex raw ∧ decode raw = .ok l ∧
        Accepts P cfg master env l s (s.step P ops cfg master env e) ledger := by
  have hout := step_outcome P ops cfg master env s e
  generalize s.step P ops cfg master env e = s' at hout
  cases hout with
  | discover mac ifindex raw l hd hout =>
    obtain ⟨hadds, hv⟩ := discover_adds ho h hfresh hout
    exact Or.inl (Quiet.of_spends_none hadds hv)
  | authReq mac ifindex raw l hd hout =>
    rcases auth_adds hc ho h hout with hquiet | hacc
    · exact Or.inl hquiet
    · exact Or.inr ⟨mac, ifindex, raw, l, rfl, hd, hacc⟩
  | sweep hrun hmoves =>
    have hr : Enters P master (s.retainFresh env) ledger := h.of_eq rfl rfl rfl
    obtain ⟨more, hadds, hspends⟩ := session_adds ho hr hmoves
    refine Or.inl (Quiet.of_spends_none ⟨more, ⟨hadds.calls, hadds.sender, hadds.ordered,
      hadds.enters⟩, hspends⟩ ?_)
    exact congrArg HandPart.verdicts hmoves.hand_eq
  | session _ hmoves =>
    exact Or.inl (Quiet.of_spends_none (session_adds ho h hmoves) (verdicts_of_hand hmoves.hand_eq))

end Server

end LandscapeKit.Flare
