import LandscapeKit.FlareClientBytes

/-!
The allocator of internal source ports (`allocate_local_port`), for any start in the range and
any ports in use, and the ports of the connections of a running session.
-/

namespace LandscapeKit.Flare

section Cycle

/-- The number of ports from `firstLocalPort` on. -/
def portCount : ℕ := 25536

/-- The port `k` places behind `next`, going round the range. -/
def portAt (next : UInt16) (k : ℕ) : UInt16 :=
  UInt16.ofNat (40000 + (next.toNat - 40000 + k) % portCount)

/-- The loop of the source, which has no bound: a derivation is a run that ends. -/
inductive LoopRuns (start : UInt16) (isUsed : UInt16 → Bool) :
    UInt16 → Option UInt16 × UInt16 → Prop
  | found {next : UInt16} (h : isUsed next = false) :
    LoopRuns start isUsed next (some next, nextPort next)
  | exhausted {next : UInt16} (h : isUsed next = true) (hstart : nextPort next = start) :
    LoopRuns start isUsed next (none, nextPort next)
  | again {next : UInt16} {result : Option UInt16 × UInt16} (h : isUsed next = true)
    (hstart : nextPort next ≠ start) (hrest : LoopRuns start isUsed (nextPort next) result) :
    LoopRuns start isUsed next result

/-- The first port, in cyclic order from `next` on, that is not in use. -/
def IsFirstUnused (isUsed : UInt16 → Bool) (next p : UInt16) : Prop :=
  ∃ k < portCount, portAt next k = p ∧ isUsed p = false ∧ ∀ j < k, isUsed (portAt next j) = true

variable {next p : UInt16} {isUsed : UInt16 → Bool}

theorem toNat_portAt (next : UInt16) (k : ℕ) :
    (portAt next k).toNat = 40000 + (next.toNat - 40000 + k) % portCount := by
  have hmod : (next.toNat - 40000 + k) % portCount < portCount :=
    Nat.mod_lt _ (by decide)
  rw [portCount] at hmod
  rw [portAt, portCount, UInt16.toNat_ofNat']
  apply Nat.mod_eq_of_lt
  omega

theorem inRange_portAt (next : UInt16) (k : ℕ) : firstLocalPort ≤ portAt next k := by
  rw [UInt16.le_iff_toNat_le, toNat_portAt]
  exact Nat.le_add_right _ _

theorem portAt_zero (h : firstLocalPort ≤ next) : portAt next 0 = next := by
  have hle : 40000 ≤ next.toNat := UInt16.le_iff_toNat_le.mp h
  have hlt : next.toNat < 65536 := next.toNat_lt
  apply UInt16.toNat_inj.mp
  rw [toNat_portAt, portCount, Nat.add_zero, Nat.mod_eq_of_lt (by omega)]
  omega

theorem nextPort_portAt (next : UInt16) (k : ℕ) : nextPort (portAt next k) = portAt next (k + 1) := by
  have hk := toNat_portAt next k
  have hk' := toNat_portAt next (k + 1)
  rw [portCount] at hk hk'
  rw [nextPort]
  split
  · rename_i hlast
    -- the last port of the range is followed by the first
    have hnat : (portAt next k).toNat = 65535 := by
      rw [hlast]
      rfl
    apply UInt16.toNat_inj.mp
    rw [hk']
    have hfirst : firstLocalPort.toNat = 40000 := rfl
    omega
  · rename_i hlast
    have hnat : (portAt next k).toNat ≠ 65535 := fun he => hlast (UInt16.toNat_inj.mp he)
    apply UInt16.toNat_inj.mp
    rw [UInt16.toNat_add, hk', hk]
    have hone : (1 : UInt16).toNat = 1 := rfl
    omega

theorem portAt_eq_iff (h : firstLocalPort ≤ next) (k : ℕ) :
    portAt next k = next ↔ k % portCount = 0 := by
  have hle : 40000 ≤ next.toNat := UInt16.le_iff_toNat_le.mp h
  have hlt : next.toNat < 65536 := next.toNat_lt
  have hk := toNat_portAt next k
  rw [portCount] at hk ⊢
  rw [← UInt16.toNat_inj, hk]
  omega

theorem exists_portAt (h : firstLocalPort ≤ next) (hp : firstLocalPort ≤ p) :
    ∃ k < portCount, portAt next k = p := by
  have hle : 40000 ≤ next.toNat := UInt16.le_iff_toNat_le.mp h
  have hlt : next.toNat < 65536 := next.toNat_lt
  have hple : 40000 ≤ p.toNat := UInt16.le_iff_toNat_le.mp hp
  have hplt : p.toNat < 65536 := p.toNat_lt
  refine ⟨(p.toNat + portCount - next.toNat) % portCount, Nat.mod_lt _ (by decide), ?_⟩
  apply UInt16.toNat_inj.mp
  rw [toNat_portAt, portCount]
  omega

end Cycle

section Loop

variable {next : UInt16} {isUsed : UInt16 → Bool}

/-- The loop, `k` places behind its start with all ports before in use: it ends, at the first
port that is not in use, or at its start when there is none. -/
theorem allocateLoop_spec (h : firstLocalPort ≤ next) (fuel k : ℕ) (hfuel : k + fuel = portCount)
    (hk : k < portCount) (hused : ∀ j < k, isUsed (portAt next j) = true) :
    LoopRuns next isUsed (portAt next k) (allocateLoop next isUsed fuel (portAt next k)) ∧
      ((∃ m < portCount, (∀ j < m, isUsed (portAt next j) = true) ∧
          isUsed (portAt next m) = false ∧
          allocateLoop next isUsed fuel (portAt next k) =
            (some (portAt next m), portAt next (m + 1))) ∨
        (∀ j < portCount, isUsed (portAt next j) = true) ∧
          allocateLoop next isUsed fuel (portAt next k) = (none, next)) := by
  induction fuel generalizing k with
  | zero => exact absurd hfuel (by omega)
  | succ fuel ih =>
    have hround := portAt_eq_iff h (k + 1)
    rw [allocateLoop, nextPort_portAt]
    cases hfree : isUsed (portAt next k) with
    | false =>
      refine ⟨?_, .inl ⟨k, hk, hused, hfree, rfl⟩⟩
      have hfound : LoopRuns next isUsed (portAt next k) (some (portAt next k), _) := .found hfree
      rwa [nextPort_portAt] at hfound
    | true =>
      have hused' : ∀ j < k + 1, isUsed (portAt next j) = true := by
        intro j hj
        rcases Nat.lt_succ_iff_lt_or_eq.mp hj with hlt | rfl
        · exact hused j hlt
        · exact hfree
      simp only [Bool.not_true, Bool.false_eq_true, if_false]
      split
      · rename_i hstart
        -- back at the start: the whole range has been tried
        have hall : k + 1 = portCount := by
          have hmod := hround.mp hstart
          rw [portCount] at hmod hk ⊢
          omega
        refine ⟨?_, .inr ⟨fun j hj => hused' j (by omega), by rw [hstart]⟩⟩
        have hend : LoopRuns next isUsed (portAt next k) (none, _) :=
          .exhausted hfree (by rw [nextPort_portAt, hstart])
        rwa [nextPort_portAt] at hend
      · rename_i hstart
        have hlt : k + 1 < portCount := by
          by_contra hge
          apply hstart
          apply hround.mpr
          have hall : k + 1 = portCount := by omega
          rw [hall, Nat.mod_self]
        obtain ⟨hruns, hresult⟩ := ih (k + 1) (by omega) hlt hused'
        refine ⟨?_, hresult⟩
        apply LoopRuns.again hfree
        · rwa [nextPort_portAt]
        · rwa [nextPort_portAt]

theorem allocateLocalPort_spec (isUsed : UInt16 → Bool) (h : firstLocalPort ≤ next) :
    LoopRuns next isUsed next (allocateLocalPort next isUsed) ∧
      ((∃ m < portCount, (∀ j < m, isUsed (portAt next j) = true) ∧
          isUsed (portAt next m) = false ∧
          allocateLocalPort next isUsed = (some (portAt next m), portAt next (m + 1))) ∨
        (∀ j < portCount, isUsed (portAt next j) = true) ∧
          allocateLocalPort next isUsed = (none, next)) := by
  have hused : ∀ j < 0, isUsed (portAt next j) = true := fun j hj => absurd hj (Nat.not_lt_zero j)
  have hspec := allocateLoop_spec h 25536 0 rfl (by decide) hused
  rw [portAt_zero h] at hspec
  exact hspec

theorem allocateLocalPort_unused {p : UInt16} (h : firstLocalPort ≤ next)
    (hp : (allocateLocalPort next isUsed).1 = some p) :
    isUsed p = false ∧ firstLocalPort ≤ p := by
  obtain ⟨-, ⟨m, -, -, hfree, he⟩ | ⟨-, he⟩⟩ := allocateLocalPort_spec isUsed h
  · rw [he] at hp
    rw [← Option.some.inj hp]
    exact ⟨hfree, inRange_portAt next m⟩
  · rw [he] at hp
    cases hp

theorem inRange_allocateLocalPort (isUsed : UInt16 → Bool) (h : firstLocalPort ≤ next) :
    firstLocalPort ≤ (allocateLocalPort next isUsed).2 := by
  obtain ⟨-, ⟨m, -, -, -, he⟩ | ⟨-, he⟩⟩ := allocateLocalPort_spec isUsed h
  · rw [he]
    exact inRange_portAt next (m + 1)
  · rw [he]
    exact h

end Loop

namespace Client

variable {S Sock : Type} (P : Primitives) (ops : StackOps S Sock) (args : SessionArgs)
  (env : ClientEnv)

/-- The ports of the connections are in the range and no two of them are the same. -/
structure PortsHeld (c : Client S) : Prop where
  next : firstLocalPort ≤ c.nextLocalPort
  inRange : ∀ h conn, c.flow.conns.lookup h = some conn → firstLocalPort ≤ conn.extra.localPort
  distinct : ∀ h h' conn conn', c.flow.conns.lookup h = some conn →
    c.flow.conns.lookup h' = some conn' → conn.extra.localPort = conn'.extra.localPort → h = h'

theorem PortsHeld.of_sub {c c' : Client S} (hc : PortsHeld c)
    (hnext : c'.nextLocalPort = c.nextLocalPort)
    (hsub : ∀ h conn', c'.flow.conns.lookup h = some conn' →
      ∃ conn, c.flow.conns.lookup h = some conn ∧
        conn'.extra.localPort = conn.extra.localPort) : PortsHeld c' := by
  refine ⟨hnext ▸ hc.next, ?_, ?_⟩
  · intro h conn' hl
    obtain ⟨conn, hl, he⟩ := hsub h conn' hl
    exact he ▸ hc.inRange h conn hl
  · intro h h' conn conn' hl hl' he
    obtain ⟨old, hold, heq⟩ := hsub h conn hl
    obtain ⟨old', hold', heq'⟩ := hsub h' conn' hl'
    exact hc.distinct h h' old old' hold hold' (by rw [← heq, he, heq'])

theorem PortsHeld.of_same {c c' : Client S} (hc : PortsHeld c)
    (hnext : c'.nextLocalPort = c.nextLocalPort) (hconns : c'.flow.conns = c.flow.conns) :
    PortsHeld c' :=
  hc.of_sub hnext fun h conn hl => ⟨conn, by rw [← hconns, hl], rfl⟩

theorem portUsed_of_lookup {c : Client S} {h : SocketHandle} {conn : ClientConn}
    (hl : c.flow.conns.lookup h = some conn) : c.portUsed conn.extra.localPort = true := by
  rw [portUsed, List.any_eq_true]
  exact ⟨⟨h, conn⟩, AList.mem_lookup_iff.mp hl, beq_self_eq_true _⟩

theorem onAccept_portsHeld {c : Client S} (hc : PortsHeld c) (forward : Forward) :
    PortsHeld (c.onAccept ops forward).1 := by
  have hrange := inRange_allocateLocalPort c.portUsed hc.next
  simp only [onAccept]
  cases hport : (allocateLocalPort c.nextLocalPort c.portUsed).1 with
  | none => exact ⟨hrange, hc.inRange, hc.distinct⟩
  | some port =>
    obtain ⟨hunused, hfirst⟩ := allocateLocalPort_unused hc.next hport
    -- no connection of the table holds the new port
    have hfree (h : SocketHandle) (conn : ClientConn) (hl : c.flow.conns.lookup h = some conn) :
        conn.extra.localPort ≠ port := by
      intro he
      have hused := portUsed_of_lookup hl
      rw [he, hunused] at hused
      cases hused
    refine ⟨hrange, ?_, ?_⟩
    · intro h conn hl
      dsimp only at hl
      rw [Assoc.lookup_insert_eq] at hl
      split at hl
      · rw [← Option.some.inj hl]
        exact hfirst
      · exact hc.inRange h conn hl
    · intro h h' conn conn' hl hl' he
      dsimp only at hl hl'
      rw [Assoc.lookup_insert_eq] at hl hl'
      split at hl
      · rename_i hh
        split at hl'
        · rename_i hh'
          rw [hh, hh']
        · rw [← Option.some.inj hl] at he
          exact absurd he.symm (hfree h' conn' hl')
      · split at hl'
        · rw [← Option.some.inj hl'] at he
          exact absurd he (hfree h conn hl)
        · exact hc.distinct h h' conn conn' hl hl' he

theorem PortsHeld.of_keeps {c : Client S} (hc : PortsHeld c) {flow : Flow S ClientExtra}
    (hkeep : c.flow.Keeps flow) : PortsHeld { c with flow := flow } := by
  refine PortsHeld.of_sub hc ?_ ?_
  · rfl
  intro h conn' hl
  obtain ⟨conn, hold, -, -, hextra⟩ := hkeep.conns h conn' hl
  exact ⟨conn, hold, by rw [hextra]⟩

theorem pump_portsHeld {c : Client S} (hc : PortsHeld c) : PortsHeld (c.pump P ops args env) := by
  have hkeep := ((Flow.pollAndSend_keeps P ops (link args env) c.flow).trans
    (Flow.relayAll_keeps ops env.order _)).trans (Flow.pollAndSend_keeps P ops (link args env) _)
  have hflow := hc.of_keeps hkeep
  simp only [pump]
  split
  · exact hflow.of_same rfl rfl
  · exact hflow

theorem onFrame_portsHeld {c : Client S} (hc : PortsHeld c) (raw : Bytes) :
    PortsHeld (c.onFrame P ops args env raw).1 := by
  simp only [onFrame]
  split
  · exact hc
  · split
    · exact hc
    · split
      · split <;> exact hc.of_same rfl rfl
      · split
        · split
          · exact hc.of_same rfl rfl
          · split <;> exact hc.of_same rfl rfl
        · exact hc

theorem onToRx_portsHeld {c : Client S} (hc : PortsHeld c) : PortsHeld (c.onToRx ops).1 := by
  rcases hq : c.toRx with _ | ⟨q, rest⟩
  · simpa only [onToRx, hq] using hc
  simp only [onToRx, hq]
  split
  · split
    · exact hc.of_same rfl rfl
    next conn hl =>
    split
    · exact hc.of_same rfl rfl
    split
    · exact hc.of_same rfl rfl
    split
    · -- only the flag of the connection changes
      refine PortsHeld.of_sub hc ?_ ?_
      · rfl
      intro h conn' hl'
      dsimp only at hl'
      rw [Assoc.lookup_insert_eq] at hl'
      split at hl'
      · rename_i hh
        refine ⟨conn, by rw [hh, hl], ?_⟩
        rw [← Option.some.inj hl']
      · exact ⟨conn', hl', rfl⟩
    · exact hc.of_same rfl rfl
  · exact hc

theorem closeConnection_ports (flow : Flow S ClientExtra) (h k : SocketHandle) (conn' : ClientConn)
    (hl : (closeConnection ops flow h).conns.lookup k = some conn') :
    ∃ conn, flow.conns.lookup k = some conn ∧ conn'.extra.localPort = conn.extra.localPort := by
  rw [closeConnection] at hl
  cases hold : flow.conns.lookup h with
  | none =>
    rw [hold] at hl
    exact ⟨conn', hl, rfl⟩
  | some conn =>
    rw [hold] at hl
    dsimp only at hl
    rw [Assoc.lookup_insert_eq] at hl
    split at hl
    · rename_i hk
      refine ⟨conn, by rw [hk, hold], ?_⟩
      rw [← Option.some.inj hl]
    · exact ⟨conn', hl, rfl⟩

theorem closeConnections_portsHeld {c : Client S} (hc : PortsHeld c) (hs : List SocketHandle) :
    PortsHeld { c with flow := hs.foldl (closeConnection ops) c.flow } :=
  List.foldlRecOn (motive := fun flow => PortsHeld { c with flow := flow }) _ _ hc
    fun flow hflow h _ =>
      hflow.of_sub rfl fun k conn' hl => closeConnection_ports ops flow h k conn' hl

theorem onCommand_portsHeld {c : Client S} (hc : PortsHeld c) (command : Option ForwardCommand) :
    PortsHeld (c.onCommand ops args env command).1 := by
  unfold onCommand
  split
  · exact hc
  · split
    · exact hc.of_same rfl rfl
    · split
      · exact hc
      · split
        · exact hc
        · exact hc.of_same rfl rfl
    · apply closeConnections_portsHeld
      exact hc.of_same rfl rfl

theorem onKeepalive_portsHeld {c : Client S} (hc : PortsHeld c) :
    PortsHeld (c.onKeepalive P args env).1 := by
  unfold onKeepalive
  dsimp only
  split
  · exact hc.of_same rfl rfl
  · split <;> exact hc.of_same rfl rfl

theorem taskStep_ports (c : Client S) (id : ConnId) (t : BridgeTask) (act : BridgeAct) :
    (c.taskStep id t act).nextLocalPort = c.nextLocalPort := by
  unfold taskStep
  split
  · split
    · rfl
    · split
      · rfl
      · split <;> rfl
  · split <;> rfl
  · split
    · rfl
    · rfl
    · split <;> rfl
  · split <;> rfl
  · rfl
  · rfl
  · split
    · rfl
    · split <;> rfl
  · split
    · rfl
    · dsimp only
      split
      · split <;> rfl
      · split <;> rfl
  · rfl

theorem branch_portsHeld {c : Client S} (hc : PortsHeld c) (due : Bool) (e : Event) :
    PortsHeld (c.branch P ops args env due e).1 := by
  cases e with
  | frame raw => exact onFrame_portsHeld P ops args env hc raw
  | accept forward => exact onAccept_portsHeld ops hc forward
  | toRx => exact onToRx_portsHeld ops hc
  | command command => exact onCommand_portsHeld ops args env hc command
  | keepalive => exact onKeepalive_portsHeld P args env hc
  | recvFailed | wake | poll | shutdown | task => exact hc

theorem step_portsHeld {c : Client S} (hc : PortsHeld c) (e : Event) :
    PortsHeld (c.step P ops args env e) := by
  apply step_induction P ops args env PortsHeld c e hc
  · intro id act t _
    obtain ⟨chans, hflow⟩ := taskStep_flow c id t act
    exact hc.of_same (taskStep_ports c id t act) (by rw [hflow])
  · exact hc.of_same rfl rfl
  · exact fun c' due h => branch_portsHeld P ops args env h due e
  · exact fun c' h => pump_portsHeld P ops args env h
  · exact fun c' reason h => h.of_same rfl rfl

theorem run_portsHeld (events : List (ClientEnv × Event)) {c : Client S} (hc : PortsHeld c) :
    PortsHeld (c.run P ops args events) := by
  induction events generalizing c with
  | nil => exact hc
  | cons e events ih => exact ih (step_portsHeld P ops args e.1 hc e.2)

theorem init_portsHeld (now : Instant) (seed : UInt64) :
    PortsHeld (Client.init ops args now seed) := by
  refine ⟨UInt16.le_iff_toNat_le.mpr (Nat.le_refl _), ?_, ?_⟩
  · intro h conn hl
    cases hl
  · intro h h' conn conn' hl
    cases hl

end Client

theorem allocateLocalPort_eq_some {next p : UInt16} {isUsed : UInt16 → Bool}
    (h : firstLocalPort ≤ next) :
    (allocateLocalPort next isUsed).1 = some p ↔ IsFirstUnused isUsed next p := by
  obtain ⟨-, ⟨m, hm, hused, hfree, he⟩ | ⟨hused, he⟩⟩ := allocateLocalPort_spec isUsed h
  · rw [he]
    constructor
    · intro hp
      rw [← Option.some.inj hp]
      exact ⟨m, hm, rfl, hfree, hused⟩
    · rintro ⟨k, hk, rfl, hfreek, husedk⟩
      -- both are the least place with a port that is not in use
      have hle : m ≤ k := by
        by_contra hlt
        rw [hused k (by omega)] at hfreek
        cases hfreek
      have hge : k ≤ m := by
        by_contra hlt
        rw [husedk m (by omega)] at hfree
        cases hfree
      rw [le_antisymm hle hge]
  · rw [he]
    constructor
    · intro hp
      cases hp
    · rintro ⟨k, hk, rfl, hfreek, -⟩
      rw [hused k hk] at hfreek
      cases hfreek

theorem allocateLocalPort_isSome {next : UInt16} {isUsed : UInt16 → Bool}
    (h : firstLocalPort ≤ next) :
    (allocateLocalPort next isUsed).1.isSome = true ↔
      ∃ p, firstLocalPort ≤ p ∧ isUsed p = false := by
  obtain ⟨-, ⟨m, hm, hused, hfree, he⟩ | ⟨hused, he⟩⟩ := allocateLocalPort_spec isUsed h
  · rw [he]
    exact ⟨fun _ => ⟨_, inRange_portAt next m, hfree⟩, fun _ => rfl⟩
  · rw [he]
    constructor
    · intro hsome
      cases hsome
    · rintro ⟨p, hp, hfree⟩
      obtain ⟨k, hk, rfl⟩ := exists_portAt h hp
      rw [hused k hk] at hfree
      cases hfree

theorem allocateLocalPort_next {next : UInt16} {isUsed : UInt16 → Bool}
    (h : firstLocalPort ≤ next) :
    (allocateLocalPort next isUsed).2 =
      ((allocateLocalPort next isUsed).1.map nextPort).getD next := by
  obtain ⟨-, ⟨m, hm, hused, hfree, he⟩ | ⟨hused, he⟩⟩ := allocateLocalPort_spec isUsed h
  · rw [he, Option.map_some, Option.getD_some, nextPort_portAt]
  · rw [he, Option.map_none, Option.getD_none]

/-- The allocator ends for every start and every set of ports in use, with the first unused port
in cyclic order or, when there is none, with nothing; the counter stays in the range. In a session
no port is handed out while a connection holds it, whatever came before. -/
theorem allocateLocalPort_total :
    (∀ (next : UInt16) (isUsed : UInt16 → Bool), firstLocalPort ≤ next →
      LoopRuns next isUsed next (allocateLocalPort next isUsed) ∧
      (∀ p, (allocateLocalPort next isUsed).1 = some p ↔ IsFirstUnused isUsed next p) ∧
      ((allocateLocalPort next isUsed).1.isSome ↔
        ∃ p, firstLocalPort ≤ p ∧ isUsed p = false) ∧
      (allocateLocalPort next isUsed).2 =
        ((allocateLocalPort next isUsed).1.map nextPort).getD next ∧
      firstLocalPort ≤ (allocateLocalPort next isUsed).2) ∧
    ∀ {S Sock : Type} (P : Primitives) (ops : StackOps S Sock) (args : SessionArgs) (now : Instant)
      (seed : UInt64) (events : List (ClientEnv × Client.Event)),
      let c := (Client.init ops args now seed).run P ops args events
      (∀ h h' conn conn', c.flow.conns.lookup h = some conn → c.flow.conns.lookup h' = some conn' →
        conn.extra.localPort = conn'.extra.localPort → h = h') ∧
      ∀ p, (allocateLocalPort c.nextLocalPort c.portUsed).1 = some p →
        ∀ h conn, c.flow.conns.lookup h = some conn → conn.extra.localPort ≠ p := by
  constructor
  · intro next isUsed h
    exact ⟨(allocateLocalPort_spec isUsed h).1, fun p => allocateLocalPort_eq_some h,
      allocateLocalPort_isSome h, allocateLocalPort_next h, inRange_allocateLocalPort isUsed h⟩
  · intro S Sock P ops args now seed events
    have hheld := Client.run_portsHeld P ops args events (Client.init_portsHeld ops args now seed)
    refine ⟨hheld.distinct, ?_⟩
    intro p hp h conn hl he
    obtain ⟨hfree, -⟩ := allocateLocalPort_unused hheld.next hp
    have hused := Client.portUsed_of_lookup hl
    rw [he, hfree] at hused
    cases hused

theorem allocateLocalPort_total_wraps :
    firstLocalPort ≤ (65535 : UInt16) ∧
      (allocateLocalPort 65535 fun port => port == 65535).1 = some 40000 :=
  ⟨by decide, ((allocateLocalPort_total.1 65535 (fun port => port == 65535) (by decide)).2.1
    40000).mpr ⟨1, by decide, by decide, by decide, fun j hj => by
      obtain rfl : j = 0 := by omega
      decide⟩⟩

end LandscapeKit.Flare
