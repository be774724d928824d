import LandscapeKit.FlareLedgerServer

/-!
What the clients add to the ledger. A client adopts one RESP per discover id, so it builds
one AUTH_REQ per server nonce, and it starts one session loop per AUTH_REQ.
-/

namespace LandscapeKit.Flare

open Bytes

namespace Client

variable {S Sock : Type} (P : Primitives) (ops : StackOps S Sock) (args : SessionArgs)
  (env : ClientEnv)

def Seals (c c' : Client S) : Prop :=
  ∃ calls, c'.sealed = c.sealed ++ calls ∧ SealedRun c.flow.crypto c'.flow.crypto calls

theorem Seals.of_eq {c c' : Client S} (hw : c'.flow.wire = c.flow.wire)
    (hc : c'.flow.crypto = c.flow.crypto) : Seals c c' := by
  refine ⟨[], ?_, ?_⟩
  · rw [sealed, hw, List.append_nil]
    rfl
  · rw [hc]
    exact SealedRun.refl _

theorem Seals.trans {c₁ c₂ c₃ : Client S} (h₁ : Seals c₁ c₂) (h₂ : Seals c₂ c₃) : Seals c₁ c₃ := by
  obtain ⟨calls₁, hw₁, hr₁⟩ := h₁
  obtain ⟨calls₂, hw₂, hr₂⟩ := h₂
  exact ⟨calls₁ ++ calls₂, by rw [hw₂, hw₁, List.append_assoc], hr₁.trans hr₂⟩

theorem Seals.of_keeps {c c' : Client S} (h : Flow.Keeps c.flow c'.flow) : Seals c c' := by
  obtain ⟨frames, calls, hw, hm, hr⟩ := h.sealed
  refine ⟨calls, ?_, hr⟩
  have hf : frames.filterMap OutFrame.op = calls := by
    calc frames.filterMap OutFrame.op = (frames.map OutFrame.op).filterMap id := by
          rw [List.filterMap_map, Function.id_comp]
      _ = (calls.map some).filterMap id := by rw [hm]
      _ = calls := by simp
  rw [sealed, hw, List.filterMap_append, hf]
  rfl

theorem sendSealed_seals (c : Client S) (t : UInt8) : Seals c (c.sendSealed P args env t).2 := by
  refine ⟨[(c.flow.crypto.sealSession P t args.sid []).1.op], ?_,
    SealedRun.single P c.flow.crypto t args.sid []⟩
  rw [sealed, sendSealed, List.filterMap_append]
  rfl

theorem finish_seals (c : Client S) (reason : SessionEnd) : Seals c (c.finish P args env reason) :=
  (sendSealed_seals P args env c typeTeardown).trans (.of_eq rfl rfl)

theorem pump_seals (c : Client S) : Seals c (c.pump P ops args env) := by
  have hflow : Flow.Keeps c.flow (((c.flow.pollAndSend P ops (link args env)).relayAll ops
      env.order).pollAndSend P ops (link args env)) :=
    ((Flow.pollAndSend_keeps P ops _ c.flow).trans (Flow.relayAll_keeps ops env.order _)).trans
      (Flow.pollAndSend_keeps P ops _ _)
  simp only [pump]
  split
  · refine Seals.trans ?_ (finish_seals P args env _ _)
    exact .of_keeps hflow
  · exact .of_keeps hflow

theorem openWith_seals (c : Client S) (l : Frame) : Seals c (c.openWith P l).2 :=
  ⟨[], (List.append_nil _).symm,
    SealedRun.opened P c.flow.crypto l.msgType l.sessionId l.seq l.len l.payload⟩

theorem onFrame_seals (c : Client S) (raw : Bytes) : Seals c (c.onFrame P ops args env raw).1 := by
  simp only [onFrame]
  split
  · exact .of_eq rfl rfl
  next l hd =>
  have hopen := openWith_seals P c l
  split
  · exact .of_eq rfl rfl
  split
  · split
    · exact hopen
    · exact hopen.trans (.of_eq rfl rfl)
  split
  · split
    · exact hopen.trans (.of_eq rfl rfl)
    split
    · exact hopen.trans (.of_eq rfl rfl)
    · exact hopen.trans (.of_eq rfl rfl)
  · exact .of_eq rfl rfl

theorem closeConnections_seals (hs : List SocketHandle) (flow : Flow S ClientExtra) :
    (hs.foldl (closeConnection ops) flow).wire = flow.wire ∧
      (hs.foldl (closeConnection ops) flow).crypto = flow.crypto := by
  induction hs generalizing flow with
  | nil => exact ⟨rfl, rfl⟩
  | cons h hs ih =>
    obtain ⟨s, conns, heq, -, -⟩ := closeConnection_frame ops flow h
    obtain ⟨hw, hc⟩ := ih (closeConnection ops flow h)
    rw [List.foldl_cons]
    refine ⟨hw.trans ?_, hc.trans ?_⟩
    · rw [heq]
    · rw [heq]

theorem branch_seals (c : Client S) (due : Bool) (e : Event) :
    Seals c (c.branch P ops args env due e).1 := by
  cases e with
  | frame raw => exact onFrame_seals P ops args env c raw
  | accept forward =>
    simp only [branch, onAccept]
    split
    · exact .of_eq rfl rfl
    · exact .of_eq rfl rfl
  | toRx =>
    simp only [branch, onToRx]
    split
    · exact .of_eq rfl rfl
    split
    · split
      · exact .of_eq rfl rfl
      split
      · exact .of_eq rfl rfl
      split
      · exact .of_eq rfl rfl
      split
      · exact .of_eq rfl rfl
      · exact .of_eq rfl rfl
    · exact .of_eq rfl rfl
  | command command =>
    simp only [branch, onCommand]
    split
    · exact .of_eq rfl rfl
    split
    · exact .of_eq rfl rfl
    · split
      · exact .of_eq rfl rfl
      split
      · exact .of_eq rfl rfl
      · exact .of_eq rfl rfl
    · obtain ⟨hw, hc⟩ := closeConnections_seals ops _ c.flow
      exact .of_eq hw hc
  | keepalive =>
    have hsent := sendSealed_seals P args env c typeKeepalive
    simp only [branch, onKeepalive]
    split
    · exact hsent
    split
    · exact hsent.trans (.of_eq rfl rfl)
    · exact hsent.trans (.of_eq rfl rfl)
  | _ => exact .of_eq rfl rfl

theorem step_seals (c : Client S) (e : Event) : Seals c (c.step P ops args env e) := by
  apply step_induction P ops args env (fun c' => Seals c c') c e (.of_eq rfl rfl)
  · intro id act t _
    obtain ⟨chans, hflow⟩ := taskStep_flow c id t act
    refine .of_eq ?_ ?_
    · rw [hflow]
    · rw [hflow]
  · exact .of_eq rfl rfl
  · exact fun c' due h => h.trans (branch_seals P ops args env c' due e)
  · exact fun c' h => h.trans (pump_seals P ops args env c')
  · exact fun c' reason h => h.trans (finish_seals P args env c' reason)

end Client

namespace Party

variable {S : Type}

def crypto (p : Party S) : Option SessionCrypto := p.loop.map (fun l => l.2.flow.crypto)

def Awaits (p : Party S) (id : UInt64) : Prop :=
  p.stage = .awaitResp ∧ p.sess.phase = .discovering id

/-- How one client stands to the ledger: its attempt was built, its keys are those of the
attempt, and before its loop starts no frame of that session was sealed. -/
structure Enters (P : Primitives) (master : MasterKey) (i : ℕ) (p : Party S)
    (auths : List (ℕ × Attempt)) (ledger : List Entry) : Prop where
  attempt : ∀ a, p.attempt = some a → (i, a) ∈ auths
  awaitAuth : ∀ sn cn hkey, p.sess.phase = .awaitAuth sn cn hkey →
    hkey = HandshakeKeys.derive P master sn ∧
      ∃ a, p.attempt = some a ∧ a.serverNonce = sn ∧ a.clientNonce = cn
  session : ∀ sid keys, p.sess.phase = .session sid keys → p.stage = .over ∧
    ∃ a, p.attempt = some a ∧ keys = SessionKeys.derive P master a.serverNonce a.clientNonce ∧
      Entry.ack a.serverNonce sid a.clientNonce ∈ ledger
  looping : ∀ c, p.crypto = some c → p.stage = .over ∧ ∃ a, p.attempt = some a ∧
    c.keys = SessionKeys.derive P master a.serverNonce a.clientNonce
  unsealed : ∀ a, p.attempt = some a → p.crypto = none →
    sealedUnder ledger .c2s a.serverNonce a.clientNonce = 0

namespace Enters

variable {P : Primitives} {master : MasterKey} {i : ℕ} {p : Party S} {auths : List (ℕ × Attempt)}
  {ledger : List Entry}

theorem new : Enters P master i (Party.new : Party S) auths ledger := by
  refine ⟨?_, ?_, ?_, ?_, ?_⟩ <;> simp [Party.new, ClientSession.new, crypto]

theorem append (h : Enters P master i p auths ledger) {more : List Entry}
    (hz : ∀ a, p.attempt = some a → p.crypto = none →
      sealedUnder more .c2s a.serverNonce a.clientNonce = 0) :
    Enters P master i p auths (ledger ++ more) := by
  refine ⟨h.attempt, h.awaitAuth, ?_, h.looping, ?_⟩
  · intro sid keys hp
    obtain ⟨hst, a, ha, hk, hack⟩ := h.session sid keys hp
    exact ⟨hst, a, ha, hk, List.mem_append_left _ hack⟩
  · intro a ha hl
    rw [sealedUnder_append, h.unsealed a ha hl, hz a ha hl]

theorem auths_append (h : Enters P master i p auths ledger) (more : List (ℕ × Attempt)) :
    Enters P master i p (auths ++ more) ledger :=
  ⟨fun a ha => List.mem_append_left _ (h.attempt a ha), h.awaitAuth, h.session, h.looping,
    h.unsealed⟩

theorem not_over (h : Enters P master i p auths ledger) (hs : p.stage ≠ .over) :
    (∀ sid keys, p.sess.phase ≠ .session sid keys) ∧ p.crypto = none := by
  refine ⟨fun sid keys hp => hs (h.session sid keys hp).1, ?_⟩
  rcases hc : p.crypto with _ | c
  · rfl
  · exact absurd (h.looping c hc).1 hs

theorem giveUp (h : Enters P master i p auths ledger) (hs : p.stage ≠ .over) :
    Enters P master i { p with stage := .start } auths ledger := by
  obtain ⟨hphase, hcrypto⟩ := h.not_over hs
  refine ⟨h.attempt, h.awaitAuth, fun sid keys hp => absurd hp (hphase sid keys), ?_, h.unsealed⟩
  intro c hc
  exact absurd (hcrypto.symm.trans hc) (by simp)

end Enters

end Party

/-- How the clients stand to the ledger. A server nonce in an AUTH_REQ came with the RESP
to a discover id that no client waits for any more. -/
structure ClientsEnter {S : Type} (P : Primitives) (master : MasterKey) (clients : ℕ → Party S)
    (auths : List (ℕ × Attempt)) (ids : List UInt64) (nonces : List Nonce)
    (ledger : List Entry) : Prop where
  discovers : ∀ nonce aad plain, Entry.discover nonce aad plain ∈ ledger → nonce ∈ nonces
  requests : ∀ sn cn user, Entry.authReq sn cn user ∈ ledger →
    ∃ i a, (i, a) ∈ auths ∧ a.serverNonce = sn
  built : ∀ i a, (i, a) ∈ auths →
    (∃ user, Entry.authReq a.serverNonce a.clientNonce user ∈ ledger ∧
      a.authReq = Entry.authReqFrame P master a.serverNonce a.clientNonce user) ∧
    ∃ id, Entry.resp ⟨id, a.serverNonce⟩ ∈ ledger ∧ id ∈ ids ∧ ∀ j, ¬ (clients j).Awaits id
  apart : (auths.map (fun x => x.2.serverNonce)).Nodup
  awaits : ∀ j id, (clients j).Awaits id → id ∈ ids
  awaitsApart : ∀ i j id, (clients i).Awaits id → (clients j).Awaits id → i = j
  parties : ∀ i, (clients i).Enters P master i auths ledger
  sealers : Sealers P master .c2s (fun i => (clients i).crypto) ledger

theorem update_crypto {S : Type} (clients : ℕ → Party S) (i : ℕ) (p : Party S) :
    (fun j => (Function.update clients i p j).crypto) =
      Function.update (fun j => (clients j).crypto) i p.crypto := by
  funext j
  by_cases hj : j = i
  · rw [hj, Function.update_self, Function.update_self]
  · rw [Function.update_of_ne hj, Function.update_of_ne hj]

namespace ClientsEnter

variable {S : Type} {P : Primitives} {master : MasterKey} {clients : ℕ → Party S}
  {auths : List (ℕ × Attempt)} {ids : List UInt64} {nonces : List Nonce} {ledger : List Entry}

theorem attempt_unique (h : ClientsEnter P master clients auths ids nonces ledger) {i j : ℕ}
    {a b : Attempt} (hi : (i, a) ∈ auths) (hj : (j, b) ∈ auths)
    (hs : a.serverNonce = b.serverNonce) : i = j ∧ a = b :=
  Prod.mk.inj (List.inj_on_of_nodup_map h.apart hi hj hs)

theorem append_server (h : ClientsEnter P master clients auths ids nonces ledger)
    {more : List Entry} (hm : ∀ e ∈ more, e.sender = .s2c) :
    ClientsEnter P master clients auths ids nonces (ledger ++ more) := by
  have hz := sealedUnder_of_sender (d := .c2s) (by decide) hm
  refine ⟨?_, ?_, ?_, h.apart, h.awaits, h.awaitsApart,
    fun i => (h.parties i).append (fun a _ _ => hz _ _), h.sealers.append hz⟩
  · intro nonce aad plain he
    rcases List.mem_append.mp he with hold | hnew
    · exact h.discovers nonce aad plain hold
    · exact absurd (hm _ hnew) (by simp [Entry.sender])
  · intro sn cn user he
    rcases List.mem_append.mp he with hold | hnew
    · exact h.requests sn cn user hold
    · exact absurd (hm _ hnew) (by simp [Entry.sender])
  · intro i a ha
    obtain ⟨⟨user, hreq, hframe⟩, id, hresp, hid, hno⟩ := h.built i a ha
    exact ⟨⟨user, List.mem_append_left _ hreq, hframe⟩, id, List.mem_append_left _ hresp, hid, hno⟩

theorem advance (h : ClientsEnter P master clients auths ids nonces ledger) {i : ℕ} {p : Party S}
    {ids' : List UInt64} {nonces' : List Nonce} {more : List Entry} (hids : ∀ id ∈ ids, id ∈ ids')
    (haw : ∀ id, p.Awaits id → (clients i).Awaits id ∨ (id ∈ ids' ∧ id ∉ ids))
    (hdisc : ∀ nonce aad plain, Entry.discover nonce aad plain ∈ ledger ++ more → nonce ∈ nonces')
    (hreq : ∀ sn cn user, Entry.authReq sn cn user ∉ more)
    (hp : p.Enters P master i auths (ledger ++ more))
    (hothers : ∀ j, j ≠ i → (clients j).Enters P master j auths (ledger ++ more))
    (hs : Sealers P master .c2s (Function.update (fun j => (clients j).crypto) i p.crypto)
      (ledger ++ more)) :
    ClientsEnter P master (Function.update clients i p) auths ids' nonces' (ledger ++ more) := by
  have hcases : ∀ j id, (Function.update clients i p j).Awaits id →
      (clients j).Awaits id ∨ (j = i ∧ id ∈ ids' ∧ id ∉ ids) := by
    intro j id hj
    by_cases hji : j = i
    · rw [hji, Function.update_self] at hj
      rw [hji]
      exact (haw id hj).imp_right (fun hd => ⟨rfl, hd⟩)
    · rw [Function.update_of_ne hji] at hj
      exact Or.inl hj
  refine ⟨hdisc, ?_, ?_, h.apart, ?_, ?_, ?_, ?_⟩
  · intro sn cn user he
    rcases List.mem_append.mp he with hold | hnew
    · exact h.requests sn cn user hold
    · exact absurd hnew (hreq sn cn user)
  · intro j a ha
    obtain ⟨⟨user, hreq, hframe⟩, id, hresp, hid, hno⟩ := h.built j a ha
    refine ⟨⟨user, List.mem_append_left _ hreq, hframe⟩, id, List.mem_append_left _ hresp,
      hids id hid, ?_⟩
    intro k hk
    rcases hcases k id hk with hold | ⟨-, -, hnew⟩
    · exact hno k hold
    · exact hnew hid
  · intro j id hj
    rcases hcases j id hj with hold | ⟨-, hnew, -⟩
    · exact hids id (h.awaits j id hold)
    · exact hnew
  · intro j k id hj hk
    rcases hcases j id hj with hold | ⟨hji, -, hnew⟩
    · rcases hcases k id hk with hold' | ⟨-, -, hnew⟩
      · exact h.awaitsApart j k id hold hold'
      · exact absurd (h.awaits j id hold) hnew
    · rcases hcases k id hk with hold' | ⟨hki, -, -⟩
      · exact absurd (h.awaits k id hold') hnew
      · rw [hji, hki]
  · intro j
    by_cases hji : j = i
    · rw [hji, Function.update_self]
      exact hp
    · rw [Function.update_of_ne hji]
      exact hothers j hji
  · rw [update_crypto]
    exact hs

theorem set (h : ClientsEnter P master clients auths ids nonces ledger) {i : ℕ} {p : Party S}
    (haw : ∀ id, p.Awaits id → (clients i).Awaits id) (hp : p.Enters P master i auths ledger)
    (hs : Sealers P master .c2s (Function.update (fun j => (clients j).crypto) i p.crypto) ledger) :
    ClientsEnter P master (Function.update clients i p) auths ids nonces ledger := by
  have hnil : ledger = ledger ++ [] := (List.append_nil ledger).symm
  rw [hnil] at hp hs ⊢
  refine h.advance (fun id hid => hid) (fun id hid => Or.inl (haw id hid)) ?_ (by simp) hp ?_ hs
  · rw [← hnil]
    exact h.discovers
  · intro j _
    rw [← hnil]
    exact h.parties j

theorem resp_unused (h : ClientsEnter P master clients auths ids nonces ledger)
    (ho : Ordered ledger) {i : ℕ} {id sn : UInt64} (haw : (clients i).Awaits id)
    (hresp : Entry.resp ⟨id, sn⟩ ∈ ledger) : ∀ j a, (j, a) ∈ auths → a.serverNonce ≠ sn := by
  rintro j a ha rfl
  obtain ⟨-, id', hresp', -, hno⟩ := h.built j a ha
  have heq := ho.distinct _ hresp _ hresp' rfl
  injection heq with hpd
  injection hpd with hid
  exact hno i (hid ▸ haw)

theorem adopt (h : ClientsEnter P master clients auths ids nonces ledger) (ho : Ordered ledger)
    {i : ℕ} {id sn : UInt64} (user : String) (mac : Mac) (cn : UInt64) (haw : (clients i).Awaits id)
    (hresp : Entry.resp ⟨id, sn⟩ ∈ ledger) {a : Attempt} (ha : a = ⟨sn, cn,
      Entry.authReqFrame P master sn cn user⟩) {p : Party S} (hp : p = { clients i with
        sess := { (clients i).sess with phase := .awaitAuth sn cn (.derive P master sn) }
        stage := .awaitReply, serverMac := mac, attempt := some a }) :
    Ordered (ledger ++ [.authReq sn cn user]) ∧
      ClientsEnter P master (Function.update clients i p) (auths ++ [(i, a)]) ids nonces
        (ledger ++ [.authReq sn cn user]) := by
  have hunused := h.resp_unused ho haw hresp
  have hnoReq : ∀ cn' user', Entry.authReq sn cn' user' ∉ ledger := by
    intro cn' user' hmem
    obtain ⟨j, b, hb, hsn⟩ := h.requests sn cn' user' hmem
    exact hunused j b hb hsn
  have hcrypto : (clients i).crypto = none :=
    ((h.parties i).not_over (by rw [haw.1]; decide)).2
  have hpaw : ∀ id', ¬ p.Awaits id' := by
    rintro id' ⟨hst, -⟩
    rw [hp] at hst
    exact absurd hst (by simp)
  have haws : ∀ j id', (Function.update clients i p j).Awaits id' → j ≠ i ∧ (clients j).Awaits id' := by
    intro j id' hj
    by_cases hji : j = i
    · rw [hji, Function.update_self] at hj
      exact absurd hj (hpaw id')
    · rw [Function.update_of_ne hji] at hj
      exact ⟨hji, hj⟩
  have hpc : p.crypto = none := by
    rw [hp]
    exact hcrypto
  have hz : ∀ sn' cn', sealedUnder [Entry.authReq sn cn user] .c2s sn' cn' = 0 := fun _ _ => rfl
  refine ⟨ho.append_one _ ?_ (fun _ _ _ => rfl), ?_, ?_, ?_, ?_, ?_, ?_, ?_, ?_⟩
  · intro e' he' hs
    cases e' with
    | authReq sn' cn' user' =>
      obtain rfl : sn' = sn := Slot.authReq.inj hs
      exact absurd he' (hnoReq cn' user')
    | _ => exact absurd hs (by simp [Entry.slot])
  · intro nonce aad plain he
    rcases List.mem_append.mp he with hold | hnew
    · exact h.discovers nonce aad plain hold
    · exact absurd (List.mem_singleton.mp hnew) (by simp)
  · intro sn' cn' user' he
    rcases List.mem_append.mp he with hold | hnew
    · obtain ⟨j, b, hb, hsn⟩ := h.requests sn' cn' user' hold
      exact ⟨j, b, List.mem_append_left _ hb, hsn⟩
    · have heq := List.mem_singleton.mp hnew
      injection heq with hsn
      refine ⟨i, a, by simp, ?_⟩
      rw [ha, hsn]
  · intro j b hb
    rcases List.mem_append.mp hb with hold | hnew
    · obtain ⟨⟨user', hreq, hframe⟩, id', hresp', hid', hno⟩ := h.built j b hold
      refine ⟨⟨user', List.mem_append_left _ hreq, hframe⟩, id', List.mem_append_left _ hresp', hid',
        fun k hk => hno k (haws k id' hk).2⟩
    · obtain ⟨rfl, rfl⟩ := Prod.mk.inj (List.mem_singleton.mp hnew)
      rw [ha]
      refine ⟨⟨user, by simp, rfl⟩, id, List.mem_append_left _ hresp, h.awaits j id haw, ?_⟩
      intro k hk
      obtain ⟨hkj, hk⟩ := haws k id hk
      exact hkj (h.awaitsApart k j id hk haw)
  · rw [List.map_append, List.nodup_append]
    refine ⟨h.apart, List.nodup_singleton _, ?_⟩
    intro x hx y hy
    obtain ⟨⟨j, b⟩, hb, rfl⟩ := List.mem_map.mp hx
    rw [List.map_singleton, List.mem_singleton] at hy
    rw [hy, ha]
    exact hunused j b hb
  · exact fun j id' hj => h.awaits j id' (haws j id' hj).2
  · exact fun j k id' hj hk => h.awaitsApart j k id' (haws j id' hj).2 (haws k id' hk).2
  · intro j
    by_cases hji : j = i
    · rw [hji, Function.update_self]
      refine ⟨?_, ?_, ?_, ?_, ?_⟩
      · intro b hb
        rw [hp] at hb
        obtain rfl := Option.some.inj hb
        simp
      · intro sn' cn' hkey hphase
        rw [hp] at hphase
        injection hphase with h1 h2 h3
        refine ⟨by rw [← h1, h3], a, by rw [hp], ?_⟩
        rw [ha]
        exact ⟨h1, h2⟩
      · intro sid keys hphase
        rw [hp] at hphase
        exact absurd hphase (by simp)
      · intro c hc'
        exact absurd (hpc.symm.trans hc') (by simp)
      · intro b hb _
        rw [hp] at hb
        obtain rfl := Option.some.inj hb
        rw [ha, sealedUnder_append, hz, Nat.add_zero]
        apply sealedUnder_eq_zero
        intro number aad plain hmem
        -- A frame of this session would need the AUTH_REQ that is only built now.
        obtain ⟨-, user', hreq⟩ := ho.numbered _ _ _ _ _ _ hmem
        exact hnoReq _ _ hreq
    · rw [Function.update_of_ne hji]
      exact ((h.parties j).append (fun _ _ _ => rfl)).auths_append _
  · rw [update_crypto, hpc, ← hcrypto, Function.update_eq_self]
    exact h.sealers.append hz

end ClientsEnter

theorem decodeRespPayload_discoverId {id : UInt64} {name : String} {ports : List UInt16} {r : Resp}
    (hr : decodeRespPayload (encodeRespPayload id name ports) = .ok r) : r.discoverId = id := by
  have h0 := getU64_putU64 [] (putStr name ++ ports.flatMap ofU16) id 0 rfl
  rw [List.nil_append] at h0
  simp only [decodeRespPayload, encodeRespPayload, List.append_assoc, h0, bind, Except.bind] at hr
  -- The name and the ports may read back differently, the id stands in front of them.
  split at hr
  · exact absurd hr (by simp)
  split at hr
  · exact absurd hr (by simp)
  · obtain rfl := Except.ok.inj hr
    rfl

namespace System

variable {S Sock : Type} {P : Primitives} {cfg : ServerConfig} {master : MasterKey}

structure ClientAdds (P : Primitives) (cfg : ServerConfig) (master : MasterKey) (σ σ' : System S)
    (ledger more : List Entry) : Prop where
  calls : σ'.log = σ.log ++ more.map (Entry.op P cfg master)
  sender : ∀ e ∈ more, e.sender = .c2s
  ordered : Ordered (ledger ++ more)
  enters : ClientsEnter P master σ'.clients σ'.auths σ'.discoverIds σ'.discoverNonces
    (ledger ++ more)

theorem ClientAdds.of_set {σ σ' : System S} {ledger : List Entry} {i : ℕ} {p : Party S}
    (ho : Ordered ledger)
    (h : ClientsEnter P master σ.clients σ.auths σ.discoverIds σ.discoverNonces ledger)
    (hcl : σ'.clients = Function.update σ.clients i p)
    (hσ : (σ'.log, σ'.auths, σ'.discoverIds, σ'.discoverNonces) =
      (σ.log, σ.auths, σ.discoverIds, σ.discoverNonces))
    (haw : ∀ id, p.Awaits id → (σ.clients i).Awaits id)
    (hp : p.Enters P master i σ.auths ledger)
    (hs : Sealers P master .c2s (Function.update (fun j => (σ.clients j).crypto) i p.crypto)
      ledger) : ClientAdds P cfg master σ σ' ledger [] := by
  simp only [Prod.mk.injEq] at hσ
  obtain ⟨hlog, hauths, hids, hnonces⟩ := hσ
  refine ⟨by rw [hlog, List.map_nil, List.append_nil], by simp, by rwa [List.append_nil], ?_⟩
  rw [hcl, hauths, hids, hnonces, List.append_nil]
  exact h.set haw hp hs

theorem ClientAdds.idle {σ σ' : System S} {ledger : List Entry} {i : ℕ} (ho : Ordered ledger)
    (h : ClientsEnter P master σ.clients σ.auths σ.discoverIds σ.discoverNonces ledger)
    (hcl : σ'.clients = Function.update σ.clients i (σ.clients i))
    (hσ : (σ'.log, σ'.auths, σ'.discoverIds, σ'.discoverNonces) =
      (σ.log, σ.auths, σ.discoverIds, σ.discoverNonces)) :
    ClientAdds P cfg master σ σ' ledger [] := by
  refine .of_set ho h hcl hσ (fun id hid => hid) (h.parties i) ?_
  rw [Function.update_eq_self]
  exact h.sealers

theorem ClientAdds.giveUp {σ σ' : System S} {ledger : List Entry} {i : ℕ} (ho : Ordered ledger)
    (h : ClientsEnter P master σ.clients σ.auths σ.discoverIds σ.discoverNonces ledger)
    (hcl : σ'.clients = Function.update σ.clients i { σ.clients i with stage := .start })
    (hσ : (σ'.log, σ'.auths, σ'.discoverIds, σ'.discoverNonces) =
      (σ.log, σ.auths, σ.discoverIds, σ.discoverNonces)) (hs : (σ.clients i).stage ≠ .over) :
    ClientAdds P cfg master σ σ' ledger [] := by
  refine .of_set ho h hcl hσ ?_ ((h.parties i).giveUp hs) ?_
  · rintro id ⟨hst, -⟩
    exact absurd hst (by simp)
  · have hc : Party.crypto { σ.clients i with stage := .start } = (σ.clients i).crypto := rfl
    rw [hc, Function.update_eq_self]
    exact h.sealers

variable (ops : StackOps S Sock) (users : ℕ → ClientConfig)

theorem discover_clientAdds {σ : System S} {ledger : List Entry} (ho : Ordered ledger)
    (h : ClientsEnter P master σ.clients σ.auths σ.discoverIds σ.discoverNonces ledger) (i : ℕ)
    (id : UInt64) (nonce : Nonce) (hid : id ∉ σ.discoverIds) (hn : nonce ∉ σ.discoverNonces) :
    ∃ more, ClientAdds P cfg master σ
      (σ.clientStep P ops users master i (.discover id nonce)) ledger more := by
  have hids : ∀ x ∈ σ.discoverIds, x ∈ σ.discoverIds ++ [id] :=
    fun x hx => List.mem_append_left _ hx
  have hnonces : ∀ n aad plain, Entry.discover n aad plain ∈ ledger →
      n ∈ σ.discoverNonces ++ [nonce] :=
    fun n aad plain he => List.mem_append_left _ (h.discovers n aad plain he)
  simp only [clientStep, Party.act, Party.onDiscover]
  split
  next hstart =>
    obtain ⟨-, hcrypto⟩ := (h.parties i).not_over (by rw [hstart.1]; decide)
    refine ⟨[.discover nonce _ _], rfl, by simp [Entry.sender], ?_, ?_⟩
    · apply ho.append_one _ _ (fun _ _ _ => rfl)
      intro e' he' hs
      cases e' with
      | discover n aad plain =>
        obtain rfl : n = nonce := Slot.discover.inj hs
        exact absurd (h.discovers n aad plain he') hn
      | _ => exact absurd hs (by simp [Entry.slot])
    · dsimp only
      rw [Option.map_none, Option.toList_none, List.append_nil]
      refine h.advance hids ?_ ?_ (by simp) ?_ ?_ ?_
      · rintro x ⟨-, hx⟩
        injection hx with hx
        rw [← hx]
        exact Or.inr ⟨by simp, hid⟩
      · intro n aad plain he
        rcases List.mem_append.mp he with hold | hnew
        · exact hnonces n aad plain hold
        · have heq := List.mem_singleton.mp hnew
          injection heq with hn'
          simp [hn']
      · refine ⟨by simp, ?_, ?_, ?_, by simp⟩
        · intro sn cn hkey hp
          exact absurd hp (by simp [ClientSession.discoverFrame])
        · intro sid keys hp
          exact absurd hp (by simp [ClientSession.discoverFrame])
        · intro c hc
          exact absurd (hcrypto.symm.trans hc) (by simp)
      · exact fun j _ => (h.parties j).append (fun _ _ _ => rfl)
      · have hsame : Party.crypto { σ.clients i with
            sess := ((σ.clients i).sess.bumpRetry.discoverFrame P (users i).clientName
              (if (users i).token = "" then none else some (users i).token) master id nonce).2
            stage := .awaitResp, attempt := none } = (σ.clients i).crypto := rfl
        rw [hsame, Function.update_eq_self]
        exact h.sealers.append (fun _ _ => rfl)
  next =>
    refine ⟨[], ?_, by simp, by rwa [List.append_nil], ?_⟩
    · exact rfl
    · dsimp only
      rw [Option.map_none, Option.toList_none, List.append_nil]
      refine h.advance hids (fun x hx => Or.inl hx) ?_ (by simp) ?_ ?_ ?_
      · rw [List.append_nil]
        exact hnonces
      · rw [List.append_nil]
        exact h.parties i
      · intro j _
        rw [List.append_nil]
        exact h.parties j
      · rw [List.append_nil, Function.update_eq_self]
        exact h.sealers

theorem resp_clientAdds (hc : CollisionFree P master) {σ : System S} {ledger : List Entry}
    (hlog : ledger.map (Entry.op P cfg master) = σ.log) (ho : Ordered ledger)
    (h : ClientsEnter P master σ.clients σ.auths σ.discoverIds σ.discoverNonces ledger) (i : ℕ)
    (src : Mac) (raw : Bytes) (cn : UInt64) (hu : Unforged P master σ.log raw) :
    ∃ more, ClientAdds P cfg master σ
      (σ.clientStep P ops users master i (.resp src raw cn)) ledger more := by
  simp only [clientStep, Party.act]
  split
  · exact ⟨[], .idle ho h rfl (by simp)⟩
  next l hd =>
  simp only [Party.onResp]
  split
  next hstage =>
    rcases (σ.clients i).sess.onResp_cases P l (users i).user master cn with
      hr | ⟨id, sn, plain, resp, hphase, hsn, hopen, hdec, hid, hr⟩
    · simp only [hr]
      exact ⟨[], .giveUp ho h rfl (by simp) (by rw [hstage.1]; decide)⟩
    · simp only [hr, ← hsn]
      obtain ⟨id', hresp, hplain⟩ := resp_entry hc hlog hu hd hopen
      rw [hplain] at hdec
      obtain rfl : id = id' := hid.symm.trans (decodeRespPayload_discoverId hdec)
      obtain ⟨hord, henters⟩ := h.adopt ho (users i).user src cn ⟨hstage.1, hphase⟩ hresp rfl rfl
      exact ⟨[.authReq sn cn (users i).user], rfl, by simp [Entry.sender], hord, henters⟩
  next => exact ⟨[], .idle ho h rfl (by simp)⟩

theorem encodeHeader_sessionId {t t' : UInt8} {sid sid' seq seq' : UInt32} {len len' : UInt16}
    (he : encodeHeader t sid seq len = encodeHeader t' sid' seq' len') : sid = sid' := by
  simp only [encodeHeader, List.append_assoc] at he
  have h1 := (List.append_inj he (by simp)).2
  simp only [List.cons_append, List.nil_append, List.cons.injEq, true_and] at h1
  exact ofU32_injective (List.append_inj h1.2 (by simp)).1

theorem authProofS2C_injective (hc : CollisionFree P master) {sn cn sn' cn' : UInt64}
    (he : authProofS2C P master sn cn = authProofS2C P master sn' cn') : sn = sn' ∧ cn = cn' := by
  have hmem : authLabelS2C ∈ keyLabels := by simp [keyLabels]
  exact (hc _ hmem _ hmem _ _ _ _ he).2

theorem reply_clientAdds (hc : CollisionFree P master) {σ : System S} {ledger : List Entry}
    (hlog : ledger.map (Entry.op P cfg master) = σ.log) (ho : Ordered ledger)
    (h : ClientsEnter P master σ.clients σ.auths σ.discoverIds σ.discoverNonces ledger) (i : ℕ)
    (src : Mac) (raw : Bytes) (hu : Unforged P master σ.log raw) :
    ∃ more, ClientAdds P cfg master σ
      (σ.clientStep P ops users master i (.reply src raw)) ledger more := by
  simp only [clientStep, Party.act]
  split
  · exact ⟨[], .idle ho h rfl (by simp)⟩
  next l hd =>
  simp only [Party.onReply]
  split
  next hstage =>
    obtain ⟨hst, hauth⟩ := hstage
    have ht : l.msgType = typeAuthAck ∨ l.msgType = typeAuthNack := by
      simp only [Party.isAuthReply, Bool.and_eq_true, Bool.or_eq_true, beq_iff_eq] at hauth
      exact hauth.1
    have hent := h.parties i
    obtain ⟨-, hcrypto⟩ := hent.not_over (by rw [hst]; decide)
    have hsame : ∀ sess : ClientSession, Party.crypto { σ.clients i with
        sess := sess, stage := .over } = (σ.clients i).crypto := fun _ => rfl
    refine ⟨[], .of_set ho h rfl (by simp) ?_ ?_ ?_⟩
    · rintro id ⟨hst', -⟩
      exact absurd hst' (by simp)
    · rcases (σ.clients i).sess.onAuthFrame_cases P l master ht with
        ⟨sn, cn, hkey, plain, hphase, hopen, hdec, hr⟩ | ⟨reason, hr⟩
      · obtain ⟨rfl, a, ha, rfl, rfl⟩ := hent.awaitAuth _ _ _ hphase
        obtain ⟨sid, cn, len, hack, hplain, hheader⟩ := ack_entry hc hlog hu hd hopen
        -- The proof inside names the client nonce, the header the session id.
        rw [hplain, encodeAuthAckPayload, decodeAuthAckPayload, decodeDigest_toList] at hdec
        obtain ⟨-, rfl⟩ := authProofS2C_injective hc (Except.ok.inj hdec)
        obtain rfl : l.sessionId = sid := encodeHeader_sessionId hheader
        refine ⟨hent.attempt, ?_, ?_, ?_, hent.unsealed⟩
        · intro sn' cn' hkey' hp
          rw [hr] at hp
          exact absurd hp (by simp)
        · intro sid' keys hp
          rw [hr] at hp
          obtain ⟨rfl, rfl⟩ := ClientPhase.session.inj hp
          exact ⟨rfl, a, ha, rfl, hack⟩
        · intro c hcr
          exact absurd (hcrypto.symm.trans hcr) (by simp)
      · refine ⟨hent.attempt, ?_, ?_, ?_, hent.unsealed⟩
        · intro sn' cn' hkey' hp
          rw [hr] at hp
          exact absurd hp (by simp)
        · intro sid' keys hp
          rw [hr] at hp
          exact absurd hp (by simp)
        · intro c hcr
          exact absurd (hcrypto.symm.trans hcr) (by simp)
    · rw [hsame, Function.update_eq_self]
      exact h.sealers
  next => exact ⟨[], .idle ho h rfl (by simp)⟩

theorem start_clientAdds (hc : CollisionFree P master) {σ : System S} {ledger : List Entry}
    (ho : Ordered ledger)
    (h : ClientsEnter P master σ.clients σ.auths σ.discoverIds σ.discoverNonces ledger) (i : ℕ)
    (now : Instant) (seed : UInt64) (forwards : List Forward) (ports : List UInt16) :
    ∃ more, ClientAdds P cfg master σ
      (σ.clientStep P ops users master i (.startLoop now seed forwards ports)) ledger more := by
  simp only [clientStep, Party.act, Party.onStart]
  split
  next sid keys hloop hphase =>
    have hent := h.parties i
    obtain ⟨hst, a, ha, rfl, hack⟩ := hent.session sid keys hphase
    have hcrypto : (σ.clients i).crypto = none := by rw [Party.crypto, hloop, Option.map_none]
    refine ⟨[], .of_set ho h rfl (by simp) (fun id hid => hid) ?_ ?_⟩
    · refine ⟨hent.attempt, hent.awaitAuth, hent.session, ?_, ?_⟩
      · intro c hcr
        rw [Party.crypto, Option.map_some] at hcr
        obtain rfl := Option.some.inj hcr
        exact ⟨hst, a, ha, rfl⟩
      · intro b _ hcr
        exact absurd hcr (by simp [Party.crypto])
    · obtain ⟨⟨user, hreq, -⟩, -⟩ := h.built i a (hent.attempt a ha)
      apply h.sealers.set_new i
      · exact ⟨user, hreq⟩
      · exact hent.unsealed a ha hcrypto
      · intro j c hji hj hk
        obtain ⟨-, b, hb, hkb⟩ := (h.parties j).looping c hj
        obtain ⟨hsn, -⟩ := SessionKeys.derive_injective hc (hkb.symm.trans hk)
        exact hji (h.attempt_unique ((h.parties j).attempt b hb) (hent.attempt a ha) hsn).1
  next => exact ⟨[], .idle ho h rfl (by simp)⟩

theorem loop_clientAdds (hc : CollisionFree P master) {σ : System S} {ledger : List Entry}
    (ho : Ordered ledger)
    (h : ClientsEnter P master σ.clients σ.auths σ.discoverIds σ.discoverNonces ledger) (i : ℕ)
    (env : ClientEnv) (e : Client.Event) :
    ∃ more, ClientAdds P cfg master σ
      (σ.clientStep P ops users master i (.loop env e)) ledger more := by
  simp only [clientStep, Party.act, Party.onLoop]
  split
  · exact ⟨[], .idle ho h rfl (by simp)⟩
  next args c hloop =>
  obtain ⟨calls, hw, hrun⟩ := Client.step_seals P ops args env c e
  have hcrypto : (σ.clients i).crypto = some c.flow.crypto := by
    rw [Party.crypto, hloop, Option.map_some]
  have hent := h.parties i
  obtain ⟨hst, a, ha, hka⟩ := hent.looping _ hcrypto
  obtain ⟨sn, cn, more, hk, hmap, hmore, hord, hseal⟩ := h.sealers.run cfg ho hcrypto hrun
  obtain ⟨rfl, rfl⟩ := SessionKeys.derive_injective hc (hk.symm.trans hka)
  -- The frames count for the attempt of this client alone.
  have hz : ∀ j b, j ≠ i → (σ.clients j).attempt = some b →
      sealedUnder more .c2s b.serverNonce b.clientNonce = 0 := by
    intro j b hji hb
    apply sealedUnder_eq_zero
    intro number aad plain he
    obtain ⟨_, _, _, heq⟩ := hmore _ he
    injection heq with _ hsn
    exact hji (h.attempt_unique ((h.parties j).attempt b hb) (hent.attempt a ha) hsn).1
  refine ⟨more, ?_, ?_, hord, ?_⟩
  · rw [hmap]
    dsimp only
    rw [hw, List.drop_left]
  · intro x hx
    obtain ⟨_, _, _, rfl⟩ := hmore x hx
    rfl
  · dsimp only
    rw [Option.map_none, Option.toList_none, List.append_nil]
    refine h.advance (fun id hid => hid) (fun id hid => Or.inl hid) ?_ ?_ ?_ ?_ hseal
    · intro nonce aad plain he
      rcases List.mem_append.mp he with hold | hnew
      · exact h.discovers nonce aad plain hold
      · obtain ⟨_, _, _, heq⟩ := hmore _ hnew
        exact absurd heq (by simp)
    · intro sn cn user he
      obtain ⟨_, _, _, heq⟩ := hmore _ he
      exact absurd heq (by simp)
    · refine ⟨hent.attempt, hent.awaitAuth, ?_, ?_, ?_⟩
      · intro sid keys hp
        obtain ⟨-, b, hb, hkb, hack⟩ := hent.session sid keys hp
        exact ⟨hst, b, hb, hkb, List.mem_append_left _ hack⟩
      · intro c' hc'
        rw [Party.crypto, Option.map_some] at hc'
        obtain rfl := Option.some.inj hc'
        exact ⟨hst, a, ha, hrun.keys.trans hka⟩
      · intro b _ hcr
        exact absurd hcr (by simp [Party.crypto])
    · exact fun j hji => (h.parties j).append (fun b hb _ => hz j b hji hb)

theorem clientStep_adds (hc : CollisionFree P master) {σ : System S} {ledger : List Entry}
    (hlog : ledger.map (Entry.op P cfg master) = σ.log) (ho : Ordered ledger)
    (h : ClientsEnter P master σ.clients σ.auths σ.discoverIds σ.discoverNonces ledger) (i : ℕ)
    (a : PartyAct) (hallow : Allowed P master σ (.client i a)) :
    ∃ more, ClientAdds P cfg master σ (σ.clientStep P ops users master i a) ledger more := by
  cases a with
  | restart =>
    refine ⟨[], .of_set (p := Party.new) ho h rfl (by simp [clientStep, Party.act]) ?_ .new ?_⟩
    · rintro id ⟨hst, -⟩
      exact absurd hst (by simp [Party.new])
    · exact h.sealers.of_subset (fun j c hj => (of_update_none hj).2)
  | discover id nonce => exact discover_clientAdds ops users ho h i id nonce hallow.1 hallow.2
  | timeout =>
    simp only [clientStep, Party.act]
    split
    next hst => exact ⟨[], .giveUp ho h rfl (by simp) (by rcases hst with hst | hst <;> simp [hst])⟩
    next => exact ⟨[], .idle ho h rfl (by simp)⟩
  | resp src raw cn => exact resp_clientAdds ops users hc hlog ho h i src raw cn hallow.2
  | reply src raw => exact reply_clientAdds ops users hc hlog ho h i src raw hallow
  | startLoop now seed forwards ports =>
    exact start_clientAdds ops users hc ho h i now seed forwards ports
  | loop env e => exact loop_clientAdds ops users hc ho h i env e

end System

end LandscapeKit.Flare
