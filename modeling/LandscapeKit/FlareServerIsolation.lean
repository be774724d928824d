import Mathlib.Data.List.Dedup
import LandscapeKit.FlareRelayInv
import LandscapeKit.FlareServerMoves

/-!
Relay isolation: a message of a connection task reaches only the connection that the
task was spawned for, as long as no generation number is handed out while an older task
or message of the same MAC still carries it. A peer that is removed and created again
starts its generations over, and then the guard fails.
-/

namespace LandscapeKit.Flare

open Bytes

def succGeneration (g : UInt64) : UInt64 := max (g + 1) 1

theorem succGeneration_toNat (g : UInt64) (hg : g ≠ 0) :
    (succGeneration g).toNat = g.toNat % (2 ^ 64 - 1) + 1 := by
  have hlt := g.toNat_lt
  have hpos : 0 < g.toNat := by
    apply Nat.pos_of_ne_zero
    intro h
    exact hg (UInt64.toNat_inj.mp (by simpa using h))
  have hadd : (g + 1).toNat = (g.toNat + 1) % 2 ^ 64 := by simp [UInt64.toNat_add]
  change (if g + 1 ≤ 1 then (1 : UInt64) else g + 1).toNat = _
  -- Only the largest value wraps to zero, and then the maximum puts one in its place.
  by_cases htop : g.toNat = 2 ^ 64 - 1
  · have hle : g + 1 ≤ 1 := by
      rw [UInt64.le_iff_toNat_le, hadd, htop]
      decide
    rw [if_pos hle, htop]
    rfl
  · have hnle : ¬ g + 1 ≤ 1 := by
      rw [UInt64.le_iff_toNat_le, hadd, Nat.mod_eq_of_lt (by omega)]
      have hone : (1 : UInt64).toNat = 1 := rfl
      omega
    rw [if_neg hnle, hadd, Nat.mod_eq_of_lt (by omega), Nat.mod_eq_of_lt (by omega)]

theorem succGeneration_ne_zero (g : UInt64) (hg : g ≠ 0) : succGeneration g ≠ 0 := by
  intro h
  have hn := succGeneration_toNat g hg
  rw [h] at hn
  exact absurd hn (by simp)

theorem succGeneration_iterate_toNat (g : UInt64) (hg : g ≠ 0) (k : ℕ) :
    succGeneration^[k] g ≠ 0 ∧
      (succGeneration^[k] g).toNat = (g.toNat - 1 + k) % (2 ^ 64 - 1) + 1 := by
  have hlt := g.toNat_lt
  have hpos : 0 < g.toNat := by
    apply Nat.pos_of_ne_zero
    intro h
    exact hg (UInt64.toNat_inj.mp (by simpa using h))
  induction k with
  | zero =>
    refine ⟨hg, ?_⟩
    rw [Function.iterate_zero, id, Nat.add_zero, Nat.mod_eq_of_lt (by omega)]
    omega
  | succ k ih =>
    rw [Function.iterate_succ_apply']
    refine ⟨succGeneration_ne_zero _ ih.1, ?_⟩
    rw [succGeneration_toNat _ ih.1, ih.2, Nat.mod_add_mod, Nat.add_assoc]

theorem succGeneration_iterate_ne (g : UInt64) (hg : g ≠ 0) (k : ℕ) (hk : k + 1 < 2 ^ 64 - 1) :
    g ≠ succGeneration^[k + 1] g := by
  intro h
  have hlt := g.toNat_lt
  obtain ⟨-, hn⟩ := succGeneration_iterate_toNat g hg (k + 1)
  rw [← h] at hn
  have hpos : 0 < g.toNat := by
    apply Nat.pos_of_ne_zero
    intro h0
    exact hg (UInt64.toNat_inj.mp (by simpa using h0))
  -- Less than one full round was made, so the number is off by the steps taken.
  by_cases hwrap : g.toNat - 1 + (k + 1) < 2 ^ 64 - 1
  · rw [Nat.mod_eq_of_lt hwrap] at hn
    omega
  · rw [Nat.mod_eq_sub_mod (by omega), Nat.mod_eq_of_lt (by omega)] at hn
    omega

namespace Server

variable {S Sock : Type}

/-- A task that is still running, or a message still queued, with the connection it
belongs to. -/
def Live (s : Server S) (key : ServerConnKey) (origin : ConnId) : Prop :=
  (∃ t, s.tasks origin = some t ∧ t.phase ≠ .done ∧ t.key = key) ∨
    ∃ q ∈ s.toRx, q.key = key ∧ q.origin = origin

def Names (conns : Assoc SocketHandle ServerConn) (h : SocketHandle) (g : UInt64)
    (origin : ConnId) : Prop :=
  ∀ c, conns.lookup h = some c → c.generation = g → c.chan = origin

structure Isolated (s : Server S) : Prop where
  owned : ∀ key origin, s.Live key origin → ∀ p, s.peers.lookup key.1 = some p →
    Names p.conns key.2.1 key.2.2 origin
  applied : ∀ x ∈ s.applied, x.1 = x.2
  pools : ∀ mac p, s.peers.lookup mac = some p →
    p.listeners.length ≤ listenerPoolSize ∧ p.nextGeneration ≠ 0

/-- None of the generations that the listener pool of this peer can hand out next is
still carried by a task or a message of the same MAC. -/
def FreeAt (s : Server S) (mac : Mac) : Prop :=
  ∀ p, s.peers.lookup mac = some p → ∀ key origin, s.Live key origin → key.1 = mac →
    ∀ k < p.listeners.length, key.2.2 ≠ succGeneration^[k] p.nextGeneration

def GenerationsFree (s : Server S) : Prop := ∀ mac, s.FreeAt mac

theorem live_of_relay {s s' : Server S} (hr : s'.relay = s.relay) (key : ServerConnKey)
    (origin : ConnId) : s'.Live key origin ↔ s.Live key origin := by
  simp only [relay, RelayPart.mk.injEq] at hr
  obtain ⟨-, -, hq, ht, -, -⟩ := hr
  rw [Live, Live, hq, ht]

namespace Isolated

theorem init (now : Instant) : Isolated (Server.init now : Server S) := by
  refine ⟨?_, ?_, ?_⟩
  · intro key origin _ p hp
    exact absurd hp (by simp [Server.init])
  · intro x hx
    exact absurd hx (by simp [Server.init])
  · intro mac p hp
    exact absurd hp (by simp [Server.init])

theorem of_insert {s s' : Server S} (hs : Isolated s) (mac : Mac) (p' : Peer S)
    (hp : s'.peers = s.peers.insert mac p')
    (hlive : ∀ key origin, s'.Live key origin → s.Live key origin)
    (ha : ∀ x ∈ s'.applied, x.1 = x.2)
    (hconns : ∀ h g origin, s.Live (mac, h, g) origin → Names p'.conns h g origin)
    (hpool : p'.listeners.length ≤ listenerPoolSize ∧ p'.nextGeneration ≠ 0) : Isolated s' := by
  refine ⟨?_, ha, ?_⟩
  · rintro ⟨m, h, g⟩ origin hl p hlook
    rw [hp, Assoc.lookup_insert_eq] at hlook
    split at hlook
    next hm =>
      obtain rfl := Option.some.inj hlook
      obtain rfl : m = mac := hm
      exact hconns h g origin (hlive _ _ hl)
    next hm => exact hs.owned (m, h, g) origin (hlive _ _ hl) p hlook
  · intro m p hlook
    rw [hp, Assoc.lookup_insert_eq] at hlook
    split at hlook
    · obtain rfl := Option.some.inj hlook
      exact hpool
    · exact hs.pools m p hlook

theorem applied_of_relay {s s' : Server S} (hs : Isolated s) (hr : s'.relay = s.relay) :
    ∀ x ∈ s'.applied, x.1 = x.2 := by
  have ha : s'.applied = s.applied := congrArg RelayPart.applied hr
  rw [ha]
  exact hs.applied

theorem removePeer {s : Server S} (hs : Isolated s) (mac : Mac) : Isolated (s.removePeer mac) := by
  rcases hl : s.peers.lookup mac with _ | p
  · simpa only [Server.removePeer, hl] using hs
  · simp only [Server.removePeer, hl]
    refine ⟨?_, hs.applied, ?_⟩
    · intro key origin hlive p' hp'
      simp only [subBytes, Assoc.lookup_erase_eq] at hp'
      split at hp'
      · exact absurd hp' (by simp)
      · exact hs.owned key origin hlive p' hp'
    · intro m p' hp'
      simp only [subBytes, Assoc.lookup_erase_eq] at hp'
      split at hp'
      · exact absurd hp' (by simp)
      · exact hs.pools m p' hp'

theorem move (s s' : Server S) (hs : Isolated s) (h : Move s s') : Isolated s' := by
  have hempty : ∀ h g origin, Names (∅ : Assoc SocketHandle ServerConn) h g origin := by
    intro h g origin c hc
    exact absurd hc (by simp)
  cases h with
  | book hp hr =>
    refine ⟨?_, hs.applied_of_relay hr, hp ▸ hs.pools⟩
    intro key origin hl
    rw [hp]
    exact hs.owned key origin ((live_of_relay hr key origin).mp hl)
  | touch mac p p' hl hp hp' hr =>
    simp only [Peer.relay, PeerRelay.mk.injEq] at hp'
    obtain ⟨hc, -, hli, hg⟩ := hp'
    refine hs.of_insert mac p' hp (fun key o => (live_of_relay hr key o).mp)
      (hs.applied_of_relay hr) ?_ (by rw [hli, hg]; exact hs.pools mac p hl)
    intro h g origin hlive
    rw [hc]
    exact hs.owned (mac, h, g) origin hlive p hl
  | create mac p' hl hp hp' hr =>
    simp only [Peer.relay, PeerRelay.mk.injEq] at hp'
    obtain ⟨hc, -, hli, hg⟩ := hp'
    refine hs.of_insert mac p' hp (fun key o => (live_of_relay hr key o).mp)
      (hs.applied_of_relay hr) (fun h g origin _ => hc ▸ hempty h g origin) ?_
    rw [hli, hg]
    exact ⟨Nat.zero_le _, by decide⟩
  | renew mac p p' listeners hl hp hlen hp' hr =>
    simp only [Peer.relay, PeerRelay.mk.injEq] at hp'
    obtain ⟨hc, -, hli, hg⟩ := hp'
    simp only [relay, RelayPart.mk.injEq, subBytes] at hr
    obtain ⟨-, -, hq, ht, ha, -⟩ := hr
    refine hs.of_insert mac p' hp ?_ (by rw [ha]; exact hs.applied)
      (fun h g origin _ => hc ▸ hempty h g origin) ?_
    · intro key origin hlive
      rwa [Live, hq, ht] at hlive
    · rw [hli, hg]
      exact ⟨hlen.le, (hs.pools mac p hl).2⟩
  | remove mac hs' => exact hs' ▸ hs.removePeer mac

end Isolated

section Pump

variable (P : Primitives) (ops : StackOps S Sock) (env : ServerEnv)

/-- The keys known to an accept loop: those of earlier tasks and messages, and those it
has spawned itself. -/
def Known (old : SocketHandle → UInt64 → ConnId → Prop) (a : Accepting S) (h : SocketHandle)
    (g : UInt64) (origin : ConnId) : Prop :=
  old h g origin ∨ (origin, h, g) ∈ a.spawned

structure AcceptsFresh (old : SocketHandle → UInt64 → ConnId → Prop) (rest : ℕ)
    (a : Accepting S) : Prop where
  names : ∀ h g origin, Known old a h g origin → Names a.flow.conns h g origin
  unused : ∀ h g origin, Known old a h g origin → ∀ k < rest,
    g ≠ succGeneration^[k] a.nextGeneration
  nonzero : a.nextGeneration ≠ 0

theorem acceptOne_fresh {old : SocketHandle → UInt64 → ConnId → Prop} {rest : ℕ}
    {a : Accepting S} (ha : AcceptsFresh old (rest + 1) a) (hrest : rest + 1 < 2 ^ 64 - 1)
    (listener : SocketHandle) : AcceptsFresh old rest (acceptOne ops a listener) ∧
      (acceptOne ops a listener).listeners.length = a.listeners.length + 1 := by
  unfold acceptOne
  split
  · refine ⟨⟨ha.names, ?_, ha.nonzero⟩, by simp⟩
    intro h g origin hk k hlt
    exact ha.unused h g origin hk k (by omega)
  next h newListener _ =>
    refine ⟨⟨?_, ?_, succGeneration_ne_zero _ ha.nonzero⟩, by simp⟩
    · intro h' g origin hk c hc hgen
      dsimp only at hc
      rw [Assoc.lookup_insert_eq] at hc
      split at hc
      next hh =>
        obtain rfl := Option.some.inj hc
        rcases hk with hold | hnew
        · -- An older key cannot carry the generation that was just assigned.
          exact absurd hgen.symm (ha.unused h' g origin (Or.inl hold) 0 (by omega))
        · rcases List.mem_append.mp hnew with hsp | hlast
          · exact absurd hgen.symm (ha.unused h' g origin (Or.inr hsp) 0 (by omega))
          · rw [List.mem_singleton] at hlast
            exact (congrArg Prod.fst hlast).symm
      next hh =>
        rcases hk with hold | hnew
        · exact ha.names h' g origin (Or.inl hold) c hc hgen
        · rcases List.mem_append.mp hnew with hsp | hlast
          · exact ha.names h' g origin (Or.inr hsp) c hc hgen
          · rw [List.mem_singleton] at hlast
            exact absurd (congrArg (fun x => x.2.1) hlast) hh
    · intro h' g origin hk k hlt
      change g ≠ succGeneration^[k] (succGeneration a.nextGeneration)
      rw [← Function.iterate_succ_apply]
      rcases hk with hold | hnew
      · exact ha.unused h' g origin (Or.inl hold) (k + 1) (by omega)
      · rcases List.mem_append.mp hnew with hsp | hlast
        · exact ha.unused h' g origin (Or.inr hsp) (k + 1) (by omega)
        · rw [List.mem_singleton] at hlast
          have hg : g = a.nextGeneration := congrArg (fun x => x.2.2) hlast
          rw [hg]
          exact succGeneration_iterate_ne _ ha.nonzero k (by omega)

theorem foldl_acceptOne_fresh {old : SocketHandle → UInt64 → ConnId → Prop}
    (listeners : List SocketHandle) (a : Accepting S)
    (ha : AcceptsFresh old listeners.length a) (hlen : listeners.length < 2 ^ 64 - 1) :
    AcceptsFresh old 0 (listeners.foldl (acceptOne ops) a) ∧
      (listeners.foldl (acceptOne ops) a).listeners.length =
        a.listeners.length + listeners.length := by
  induction listeners generalizing a with
  | nil => exact ⟨ha, rfl⟩
  | cons l ls ih =>
    rw [List.length_cons] at hlen ha
    obtain ⟨hone, hl1⟩ := acceptOne_fresh ops ha hlen l
    obtain ⟨hall, hl2⟩ := ih (acceptOne ops a l) hone (by omega)
    refine ⟨hall, ?_⟩
    rw [List.foldl_cons, hl2, hl1, List.length_cons]
    omega

theorem Names.keeps {f f' : Flow S Unit} (hk : Flow.Keeps f f') {h : SocketHandle} {g : UInt64}
    {origin : ConnId} (hn : Names f.conns h g origin) : Names f'.conns h g origin := by
  intro c' hc' hg
  obtain ⟨c, hc, hchan, hgen, -⟩ := hk.conns h c' hc'
  rw [hchan]
  exact hn c hc (hgen ▸ hg)

theorem pumpFlow_fresh {old : SocketHandle → UInt64 → ConnId → Prop} (link : LinkEnv)
    (peer : Peer S) (nextConn : ConnId) (flow : Flow S Unit)
    (hpool : peer.listeners.length ≤ listenerPoolSize ∧ peer.nextGeneration ≠ 0)
    (hold : ∀ h g origin, old h g origin → Names flow.conns h g origin)
    (hfree : ∀ h g origin, old h g origin → ∀ k < peer.listeners.length,
      g ≠ succGeneration^[k] peer.nextGeneration) :
    (∀ h g origin, Known old (pumpFlow P ops env link peer nextConn flow) h g origin →
      Names (pumpFlow P ops env link peer nextConn flow).flow.conns h g origin) ∧
    (pumpFlow P ops env link peer nextConn flow).nextGeneration ≠ 0 ∧
    (pumpFlow P ops env link peer nextConn flow).listeners.length ≤ listenerPoolSize := by
  have hpoll := Flow.pollAndSend_keeps P ops link flow
  have hsmall : peer.listeners.length < 2 ^ 64 - 1 :=
    lt_of_le_of_lt hpool.1 (by decide)
  simp only [pumpFlow]
  split
  · refine ⟨?_, hpool.2, hpool.1⟩
    intro h g origin hk
    rcases hk with ho | hs
    · exact (hold h g origin ho).keeps hpoll
    · exact absurd hs (by simp)
  · have hstart : AcceptsFresh old peer.listeners.length
        (⟨flow.pollAndSend P ops link, [], peer.nextGeneration, nextConn, []⟩ : Accepting S) := by
      refine ⟨?_, ?_, hpool.2⟩
      · intro h g origin hk
        rcases hk with ho | hs
        · exact (hold h g origin ho).keeps hpoll
        · exact absurd hs (by simp)
      · intro h g origin hk
        rcases hk with ho | hs
        · exact hfree h g origin ho
        · exact absurd hs (by simp)
    obtain ⟨hacc, hlen⟩ := foldl_acceptOne_fresh ops peer.listeners _ hstart hsmall
    have hkeep := (Flow.relayAll_keeps ops env.order (peer.listeners.foldl (acceptOne ops)
      ⟨flow.pollAndSend P ops link, [], peer.nextGeneration, nextConn, []⟩).flow).trans
      (Flow.pollAndSend_keeps P ops link _)
    refine ⟨?_, hacc.nonzero, ?_⟩
    · intro h g origin hk
      exact (hacc.names h g origin hk).keeps hkeep
    · rw [hlen, List.length_nil, Nat.zero_add]
      exact hpool.1

theorem spawnTasks_cases (tasks : ConnId → Option ConnTask) (mac : Mac)
    (spawned : List (ConnId × SocketHandle × UInt64)) (id : ConnId) (t : ConnTask)
    (h : spawnTasks tasks mac spawned id = some t) :
    tasks id = some t ∨ ∃ hd g, (id, hd, g) ∈ spawned ∧ t.key = (mac, hd, g) := by
  induction spawned generalizing tasks with
  | nil => exact Or.inl h
  | cons x xs ih =>
    rcases ih _ h with hx | ⟨hd, g, hmem, hkey⟩
    · beta_reduce at hx
      by_cases hid : id = x.1
      · subst hid
        rw [Function.update_self] at hx
        obtain rfl := Option.some.inj hx
        exact Or.inr ⟨x.2.1, x.2.2, List.mem_cons_self, rfl⟩
      · rw [Function.update_of_ne hid] at hx
        exact Or.inl hx
    · exact Or.inr ⟨hd, g, List.mem_cons_of_mem x hmem, hkey⟩

theorem finishPump_live (s : Server S) (mac : Mac) (peer : Peer S) (a : Accepting S)
    (key : ServerConnKey) (origin : ConnId)
    (h : (finishPump ops env s mac peer a).Live key origin) :
    s.Live key origin ∨ ∃ hd g, (origin, hd, g) ∈ a.spawned ∧ key = (mac, hd, g) := by
  rcases h with ⟨t, ht, hph, hkey⟩ | hq
  · rcases spawnTasks_cases s.tasks mac a.spawned origin t ht with hold | ⟨hd, g, hmem, hk⟩
    · exact Or.inl (Or.inl ⟨t, hold, hph, hkey⟩)
    · exact Or.inr ⟨hd, g, hmem, hkey.symm.trans hk⟩
  · exact Or.inl (Or.inr hq)

theorem pumpPeer_isolated {s : Server S} (hs : Isolated s) (mac : Mac) (hfree : s.FreeAt mac)
    (sid : UInt32) : Isolated (s.pumpPeer P ops env mac sid) ∧
      ∀ m, m ≠ mac → s.FreeAt m → (s.pumpPeer P ops env mac sid).FreeAt m := by
  rcases hl : s.peers.lookup mac with _ | peer
  · simp only [pumpPeer, hl]
    exact ⟨hs, fun _ _ h => h⟩
  rcases hst : peer.stack with _ | stack
  · simp only [pumpPeer, hl, hst]
    exact ⟨hs, fun _ _ h => h⟩
  rcases hcr : peer.crypto with _ | crypto
  · simp only [pumpPeer, hl, hst, hcr]
    exact ⟨hs, fun _ _ h => h⟩
  simp only [pumpPeer, hl, hst, hcr]
  obtain ⟨hnames, hgen, hlen⟩ := pumpFlow_fresh P ops env (linkOf env mac peer sid) peer s.nextConn
    (startFlow s peer stack crypto) (hs.pools mac peer hl)
    (fun h g origin (ho : s.Live (mac, h, g) origin) => hs.owned (mac, h, g) origin ho peer hl)
    (fun h g origin ho => hfree peer hl (mac, h, g) origin ho rfl)
  refine ⟨⟨?_, hs.applied, ?_⟩, ?_⟩
  · rintro ⟨m, h, g⟩ origin hlive p hp
    have hcases := finishPump_live ops env s mac peer _ (m, h, g) origin hlive
    simp only [finishPump] at hp
    rw [Assoc.lookup_insert_eq] at hp
    split at hp
    next hm =>
      obtain rfl := Option.some.inj hp
      obtain rfl : m = mac := hm
      apply hnames
      rcases hcases with hold | ⟨hd, g', hmem, hkey⟩
      · exact Or.inl hold
      · obtain ⟨-, rfl, rfl⟩ := Prod.mk.injEq .. ▸ hkey
        exact Or.inr hmem
    next hm =>
      rcases hcases with hold | ⟨hd, g', -, hkey⟩
      · exact hs.owned (m, h, g) origin hold p hp
      · exact absurd (congrArg Prod.fst hkey) hm
  · intro m p hp
    simp only [finishPump] at hp
    rw [Assoc.lookup_insert_eq] at hp
    split at hp
    · obtain rfl := Option.some.inj hp
      exact ⟨hlen, hgen⟩
    · exact hs.pools m p hp
  · intro m hm hfm p hp key origin hlive hkm k hk
    have hcases := finishPump_live ops env s mac peer _ key origin hlive
    simp only [finishPump] at hp
    rw [Assoc.lookup_insert_eq, if_neg hm] at hp
    rcases hcases with hold | ⟨hd, g', -, hkey⟩
    · exact hfm p hp key origin hold hkm k hk
    · exact absurd (hkm.symm.trans (congrArg Prod.fst hkey)) hm

theorem pumpSession_isolated {s : Server S} (hs : Isolated s) (mac : Mac) (hfree : s.FreeAt mac) :
    Isolated (s.pumpSession P ops env mac) ∧
      ∀ m, m ≠ mac → s.FreeAt m → (s.pumpSession P ops env mac).FreeAt m := by
  unfold pumpSession
  split
  · exact ⟨hs, fun _ _ h => h⟩
  split
  · exact ⟨hs, fun _ _ h => h⟩
  · exact pumpPeer_isolated P ops env hs mac hfree _

theorem pumpEach_isolated (macs : List Mac) (hnodup : macs.Nodup) {s : Server S}
    (hs : Isolated s) (hfree : ∀ m ∈ macs, s.FreeAt m) : Isolated (s.pumpEach P ops env macs) := by
  unfold pumpEach
  induction macs generalizing s with
  | nil => exact hs
  | cons mac macs ih =>
    obtain ⟨hnot, hnodup'⟩ := List.nodup_cons.mp hnodup
    rw [List.foldl_cons]
    split
    · obtain ⟨hpump, hothers⟩ := pumpSession_isolated P ops env hs mac (hfree mac List.mem_cons_self)
      apply ih hnodup' hpump
      intro m hm
      apply hothers m
      · rintro rfl
        exact hnot hm
      · exact hfree m (List.mem_cons_of_mem mac hm)
    · exact ih hnodup' hs (fun m hm => hfree m (List.mem_cons_of_mem mac hm))

end Pump

section Loop

variable (P : Primitives) (ops : StackOps S Sock) (cfg : ServerConfig) (master : MasterKey)
  (env : ServerEnv)

theorem FreeAt.of_touched {mac : Mac} {s s' : Server S} (h : Touched mac s s')
    (hf : s.FreeAt mac) : s'.FreeAt mac := by
  obtain ⟨p, p', hl, hp, hp', hr⟩ := h
  simp only [Peer.relay, PeerRelay.mk.injEq] at hp'
  obtain ⟨-, -, hli, hg⟩ := hp'
  intro q hq key origin hlive
  rw [hp, AList.lookup_insert] at hq
  obtain rfl := Option.some.inj hq
  rw [hli, hg]
  exact hf p hl key origin ((live_of_relay hr key origin).mp hlive)

theorem live_of_rest {s s' : Server S} {q : Queued} {rest : List Queued} (hq : s.toRx = q :: rest)
    (hq' : s'.toRx = rest) (ht : s'.tasks = s.tasks) (key : ServerConnKey) (origin : ConnId)
    (h : s'.Live key origin) : s.Live key origin := by
  rcases h with hold | ⟨q', hmem, hkey⟩
  · exact Or.inl (ht ▸ hold)
  · refine Or.inr ⟨q', ?_, hkey⟩
    rw [hq'] at hmem
    rw [hq]
    exact List.mem_cons_of_mem q hmem

theorem applyMsg_isolated {s : Server S} (hs : Isolated s) (mac : Mac) (h : SocketHandle)
    (peer : Peer S) (conn : ServerConn) (q : Queued) (hl : s.peers.lookup mac = some peer)
    (hc : peer.conns.lookup h = some conn) (horigin : conn.chan = q.origin)
    (hfree : s.FreeAt mac) : Isolated (s.applyMsg ops mac h peer conn q) ∧
      (s.applyMsg ops mac h peer conn q).FreeAt mac := by
  have happlied : ∀ x ∈ s.applied ++ [(q.origin, conn.chan)], x.1 = x.2 := by
    intro x hx
    rcases List.mem_append.mp hx with hold | hnew
    · exact hs.applied x hold
    · rw [List.mem_singleton] at hnew
      rw [hnew]
      exact horigin.symm
  -- Whatever the message does, the peer keeps its pool and its connections their names.
  have hput : ∀ (s' : Server S) (p' : Peer S), s'.peers = s.peers.insert mac p' →
      (∀ key origin, s'.Live key origin → s.Live key origin) →
      s'.applied = s.applied ++ [(q.origin, conn.chan)] → p'.listeners = peer.listeners →
      p'.nextGeneration = peer.nextGeneration →
      (∀ k g o, Names peer.conns k g o → Names p'.conns k g o) →
      Isolated s' ∧ s'.FreeAt mac := by
    intro s' p' hp hlive ha hli hg hnames
    refine ⟨hs.of_insert mac p' hp hlive (ha ▸ happlied) ?_ ?_, ?_⟩
    · intro k g o hk
      exact hnames k g o (hs.owned (mac, k, g) o hk peer hl)
    · rw [hli, hg]
      exact hs.pools mac peer hl
    · intro p hp' key origin hk
      rw [hp, AList.lookup_insert] at hp'
      obtain rfl := Option.some.inj hp'
      rw [hli, hg]
      exact hfree peer hl key origin (hlive key origin hk)
  simp only [applyMsg]
  split
  · exact hput _ _ rfl (fun _ _ h => h) rfl rfl rfl (fun _ _ _ h => h)
  · split
    · exact ⟨⟨hs.owned, happlied, hs.pools⟩, hfree⟩
    split
    · refine hput _ _ rfl (fun _ _ h => h) rfl rfl rfl ?_
      intro k g o hn c hc' hgen
      dsimp only at hc'
      rw [Assoc.lookup_insert_eq] at hc'
      split at hc'
      next hk =>
        obtain rfl := Option.some.inj hc'
        exact hn conn (hk ▸ hc) hgen
      next => exact hn c hc' hgen
    · exact hput _ _ rfl (fun _ _ h => h) rfl rfl rfl (fun _ _ _ h => h)

theorem onToRx_isolated {s : Server S} (hs : Isolated s) (hfree : s.GenerationsFree) :
    Isolated (s.onToRx P ops env) := by
  rcases hq : s.toRx with _ | ⟨q, rest⟩
  · simpa only [onToRx, hq] using hs
  have hlive : ∀ key o, Live { s with toRx := rest } key o → s.Live key o := by
    intro key o h
    refine live_of_rest hq ?_ ?_ key o h
    · rfl
    · rfl
  have hrest : Isolated { s with toRx := rest } :=
    ⟨fun key o h => hs.owned key o (hlive key o h), hs.applied, hs.pools⟩
  have hfree' : ∀ m, FreeAt { s with toRx := rest } m :=
    fun m p hp key o h => hfree m p hp key o (hlive key o h)
  have hqlive : s.Live q.key q.origin := Or.inr ⟨q, by rw [hq]; exact List.mem_cons_self, rfl, rfl⟩
  simp only [onToRx, hq]
  split
  · split
    · exact hrest
    next peer hl =>
    split
    · exact hrest
    next conn hc =>
    split
    next hgen =>
      have horigin := hs.owned q.key q.origin hqlive peer hl conn hc hgen
      obtain ⟨hiso, hfr⟩ := applyMsg_isolated ops hrest q.key.1 q.key.2.1 peer conn q hl hc horigin
        (hfree' q.key.1)
      exact (pumpSession_isolated P ops env hiso q.key.1 hfr).1
    · exact hrest
  · exact hs

/-- What a task step does to the relay: at most its own task moves on, with its key, and
at most one message with that key is queued. -/
structure TaskMoves (s s' : Server S) (id : ConnId) (t : ConnTask) : Prop where
  peers : s'.peers = s.peers
  applied : s'.applied = s.applied
  nextConn : s'.nextConn = s.nextConn
  running : t.phase = .done → s'.tasks = s.tasks ∧ s'.toRx = s.toRx
  tasks : ∀ id' t', s'.tasks id' = some t' → s.tasks id' = some t' ∨ (id' = id ∧ t'.key = t.key)
  queued : ∀ q ∈ s'.toRx, q ∈ s.toRx ∨ (q.key = t.key ∧ q.origin = id)

namespace TaskMoves

variable {s s₁ s₂ : Server S} {id : ConnId} {t : ConnTask}

theorem refl (s : Server S) (id : ConnId) (t : ConnTask) : TaskMoves s s id t :=
  ⟨rfl, rfl, rfl, fun _ => ⟨rfl, rfl⟩, fun _ _ h => Or.inl h, fun _ h => Or.inl h⟩

theorem of_relay (h : TaskMoves s s₁ id t) (hp : s₂.peers = s₁.peers) (hr : s₂.relay = s₁.relay) :
    TaskMoves s s₂ id t := by
  simp only [Server.relay, RelayPart.mk.injEq] at hr
  obtain ⟨-, -, hq, ht, ha, hn⟩ := hr
  refine ⟨hp.trans h.peers, ha.trans h.applied, hn.trans h.nextConn, ?_, ht ▸ h.tasks, hq ▸ h.queued⟩
  rw [ht, hq]
  exact h.running

theorem setTask (h : TaskMoves s s₁ id t) (hph : t.phase ≠ .done) (phase : TaskPhase)
    (writer : Writer) : TaskMoves s (s₁.setTask id ⟨t.key, phase, writer⟩) id t := by
  refine ⟨h.peers, h.applied, h.nextConn, fun hd => absurd hd hph, ?_, h.queued⟩
  intro id' t'' hl
  change Function.update s₁.tasks id (some ⟨t.key, phase, writer⟩) id' = some t'' at hl
  by_cases hid : id' = id
  · subst hid
    rw [Function.update_self] at hl
    obtain rfl := Option.some.inj hl
    exact Or.inr ⟨rfl, rfl⟩
  · rw [Function.update_of_ne hid] at hl
    exact h.tasks id' t'' hl

theorem pushToRx (h : TaskMoves s s₁ id t) (hph : t.phase ≠ .done) (msg : StackMsg) :
    TaskMoves s (s₁.pushToRx ⟨t.key, msg, id⟩) id t := by
  refine ⟨h.peers, h.applied, h.nextConn, fun hd => absurd hd hph, h.tasks, ?_⟩
  intro q hq
  rcases List.mem_append.mp hq with hold | hnew
  · exact h.queued q hold
  · rw [List.mem_singleton] at hnew
    rw [hnew]
    exact Or.inr ⟨rfl, rfl⟩

theorem notify (h : TaskMoves s s₁ id t) (key : ServerConnKey) :
    TaskMoves s (s₁.notify key) id t := by
  unfold Server.notify
  split
  · exact h
  · exact h.of_relay rfl rfl

theorem dropReceiver (h : TaskMoves s s₁ id t) (id' : ConnId) (key : ServerConnKey) :
    TaskMoves s (s₁.dropReceiver id' key) id t := by
  apply notify
  exact h.of_relay rfl rfl

theorem recvFrom (h : TaskMoves s s₁ id t) (id' : ConnId) (key : ServerConnKey) :
    TaskMoves s (s₁.recvFrom id' key).2 id t := by
  unfold Server.recvFrom
  split
  · apply notify
    exact h.of_relay rfl rfl
  · split
    · exact h
    · exact h

end TaskMoves

theorem taskStep_moves (s : Server S) (id : ConnId) (t : ConnTask) (act : TaskAct) :
    TaskMoves s (s.taskStep cfg id t act) id t := by
  have hstay := TaskMoves.refl s id t
  have hrecv := hstay.recvFrom id t.key
  unfold taskStep
  split
  next hph =>
    have hne : t.phase ≠ .done := by simp [hph]
    dsimp only
    split
    · exact hstay
    · exact hrecv.setTask hne _ _
    · exact hrecv.setTask hne _ _
  next hph =>
    have hne : t.phase ≠ .done := by simp [hph]
    split
    · exact hstay.setTask hne _ _
    · exact hstay.setTask hne _ _
  next hph => exact hstay.setTask (by simp [hph]) _ _
  next hph =>
    split
    · exact hstay.setTask (by simp [hph]) _ _
    · exact hstay
  next hph =>
    have hne : t.phase ≠ .done := by simp [hph]
    split
    · dsimp only
      split
      · exact hstay
      · exact hrecv.setTask hne _ _
      · exact hrecv.setTask hne _ _
    · exact hstay
  next hph =>
    have hne : t.phase ≠ .done := by simp [hph]
    split
    · split
      · exact hstay.setTask hne _ _
      · exact (hstay.setTask hne _ _).dropReceiver id t.key
    · split
      · exact (hstay.setTask hne _ _).dropReceiver id t.key
      · exact (hstay.setTask hne _ _).dropReceiver id t.key
    · exact hstay
  next hph =>
    have hne : t.phase ≠ .done := by simp [hph]
    split
    · exact (hstay.setTask hne _ _).pushToRx hne _
    · exact hstay
  next hph =>
    have hne : t.phase ≠ .done := by simp [hph]
    split
    · dsimp only
      split
      · exact (hstay.setTask hne _ _).pushToRx hne _
      · exact ((hstay.setTask hne _ _).pushToRx hne _).dropReceiver id t.key
    · exact hstay
  · exact hstay

theorem taskStep_isolated {s : Server S} (hs : Isolated s) (id : ConnId) (t : ConnTask)
    (hl : s.tasks id = some t) (act : TaskAct) : Isolated (s.taskStep cfg id t act) := by
  have hm := taskStep_moves cfg s id t act
  have hlive : ∀ key origin, (s.taskStep cfg id t act).Live key origin → s.Live key origin := by
    intro key origin h
    by_cases hd : t.phase = .done
    · obtain ⟨ht, hq⟩ := hm.running hd
      rwa [Live, ht, hq] at h
    -- A running task is live itself, and it passes its own key on.
    have hself : s.Live t.key id := Or.inl ⟨t, hl, hd, rfl⟩
    rcases h with ⟨t', ht', hph', hkey⟩ | ⟨q, hq, hkey, horigin⟩
    · rcases hm.tasks origin t' ht' with hold | ⟨rfl, hk⟩
      · exact Or.inl ⟨t', hold, hph', hkey⟩
      · rw [← hkey, hk]
        exact hself
    · rcases hm.queued q hq with hold | ⟨hk, ho⟩
      · exact Or.inr ⟨q, hold, hkey, horigin⟩
      · rw [← hkey, ← horigin, hk, ho]
        exact hself
  refine ⟨?_, hm.applied ▸ hs.applied, hm.peers ▸ hs.pools⟩
  intro key origin h
  rw [hm.peers]
  exact hs.owned key origin (hlive key origin h)

theorem step_isolated {s : Server S} (hs : Isolated s) (hfree : s.GenerationsFree) (e : Event) :
    Isolated (s.step P ops cfg master env e) := by
  cases e with
  | frame mac ifindex raw =>
    simp only [step]
    split
    · rcases onFrame_moves P ops cfg master env s mac ifindex raw with hmoves | ⟨s₁, sid, ht, heq⟩
      · exact hmoves.preserves Isolated.move hs
      · rw [heq]
        exact (pumpPeer_isolated P ops env (Isolated.move s s₁ hs ht.move) mac
          ((hfree mac).of_touched ht) sid).1
    · exact hs
  | recvFailed => exact ⟨hs.owned, hs.applied, hs.pools⟩
  | toRx =>
    simp only [step]
    split
    · exact onToRx_isolated P ops env hs hfree
    · exact hs
  | wake =>
    simp only [step]
    split
    · apply pumpEach_isolated P ops env
      · exact (env.macOrder_perm _).nodup_iff.mpr (List.nodup_dedup _)
      · exact ⟨hs.owned, hs.applied, hs.pools⟩
      · exact fun m _ => hfree m
    · exact hs
  | poll =>
    simp only [step]
    split
    · apply pumpEach_isolated P ops env
      · exact (env.macOrder_perm _).nodup_iff.mpr (s.peers.keys_nodup.filter _)
      · exact hs
      · exact fun m _ => hfree m
    · exact hs
  | sweep =>
    simp only [step]
    split
    · exact (onSweep_moves P env s).preserves Isolated.move hs
    · exact hs
  | shutdown =>
    simp only [step]
    split
    · exact (onShutdown_moves P env s).preserves Isolated.move hs
    · exact hs
  | task id act =>
    simp only [step]
    split
    · exact hs
    next t hl => exact taskStep_isolated cfg hs id t hl act

theorem run_isolated (events : List (ServerEnv × Event)) {s : Server S} (hs : Isolated s)
    (hfree : ∀ n, (s.run P ops cfg master (events.take n)).GenerationsFree) :
    Isolated (s.run P ops cfg master events) := by
  induction events generalizing s with
  | nil => exact hs
  | cons e es ih =>
    have hstep := step_isolated P ops cfg master e.1 hs (hfree 0) e.2
    exact ih hstep (fun n => hfree (n + 1))

/-- Relay isolation: in a run that never reuses a generation while its old owner is
alive, every message that was applied went to the connection of the task that sent it. -/
theorem run_applied_own (now : Instant) (events : List (ServerEnv × Event))
    (hfree : ∀ n, ((Server.init now : Server S).run P ops cfg master (events.take n)).GenerationsFree) :
    ∀ n, ∀ x ∈ ((Server.init now : Server S).run P ops cfg master (events.take n)).applied,
      x.1 = x.2 := by
  intro n
  refine (run_isolated P ops cfg master (events.take n) (Isolated.init now) ?_).applied
  intro k
  rw [List.take_take]
  exact hfree (min k n)

end Loop

section Ids

variable (P : Primitives) (ops : StackOps S Sock) (cfg : ServerConfig) (master : MasterKey)
  (env : ServerEnv)

/-- No connection gets the number of an earlier task: the numbers of all tasks are below
the counter. -/
def IdsFresh (s : Server S) : Prop := ∀ id t, s.tasks id = some t → id < s.nextConn

theorem acceptOne_ids (a : Accepting S) (listener : SocketHandle)
    (ha : ∀ x ∈ a.spawned, x.1 < a.nextConn) :
    a.nextConn ≤ (acceptOne ops a listener).nextConn ∧
      ∀ x ∈ (acceptOne ops a listener).spawned, x.1 < (acceptOne ops a listener).nextConn := by
  unfold acceptOne
  split
  · exact ⟨le_rfl, ha⟩
  · refine ⟨Nat.le_succ _, ?_⟩
    intro x hx
    rcases List.mem_append.mp hx with hold | hnew
    · exact Nat.lt_succ_of_lt (ha x hold)
    · rw [List.mem_singleton] at hnew
      rw [hnew]
      exact Nat.lt_succ_self _

theorem foldl_acceptOne_ids (listeners : List SocketHandle) (a : Accepting S)
    (ha : ∀ x ∈ a.spawned, x.1 < a.nextConn) :
    a.nextConn ≤ (listeners.foldl (acceptOne ops) a).nextConn ∧
      ∀ x ∈ (listeners.foldl (acceptOne ops) a).spawned,
        x.1 < (listeners.foldl (acceptOne ops) a).nextConn := by
  induction listeners generalizing a with
  | nil => exact ⟨le_rfl, ha⟩
  | cons l ls ih =>
    obtain ⟨h1, h2⟩ := acceptOne_ids ops a l ha
    obtain ⟨h3, h4⟩ := ih (acceptOne ops a l) h2
    exact ⟨h1.trans h3, h4⟩

theorem pumpPeer_ids {s : Server S} (hs : IdsFresh s) (mac : Mac) (sid : UInt32) :
    IdsFresh (s.pumpPeer P ops env mac sid) := by
  unfold pumpPeer
  split
  · exact hs
  next peer _ =>
  split
  next stack crypto _ _ =>
    have hids : ∀ flow : Flow S Unit,
        s.nextConn ≤ (pumpFlow P ops env (linkOf env mac peer sid) peer s.nextConn flow).nextConn ∧
        ∀ x ∈ (pumpFlow P ops env (linkOf env mac peer sid) peer s.nextConn flow).spawned,
          x.1 < (pumpFlow P ops env (linkOf env mac peer sid) peer s.nextConn flow).nextConn := by
      intro flow
      simp only [pumpFlow]
      split
      · exact ⟨le_rfl, by simp⟩
      · apply foldl_acceptOne_ids ops peer.listeners
          ⟨flow.pollAndSend P ops (linkOf env mac peer sid), [], peer.nextGeneration, s.nextConn, []⟩
        exact fun x hx => absurd hx (by simp)
    obtain ⟨hle, hsp⟩ := hids (startFlow s peer stack crypto)
    intro id t ht
    rcases spawnTasks_cases s.tasks mac _ id t ht with hold | ⟨hd, g, hmem, -⟩
    · exact lt_of_lt_of_le (hs id t hold) hle
    · exact hsp _ hmem
  · exact hs

theorem pumpSession_ids {s : Server S} (hs : IdsFresh s) (mac : Mac) :
    IdsFresh (s.pumpSession P ops env mac) :=
  pumpSession_induction P ops env hs mac fun sid => pumpPeer_ids P ops env hs mac sid

theorem pumpEach_ids (macs : List Mac) {s : Server S} (hs : IdsFresh s) :
    IdsFresh (s.pumpEach P ops env macs) :=
  pumpEach_induction P ops env hs macs fun _ mac hs sid => pumpPeer_ids P ops env hs mac sid

theorem IdsFresh.move (s s' : Server S) (hs : IdsFresh s) (h : Move s s') : IdsFresh s' := by
  have hrelay : ∀ s' : Server S, s'.relay = s.relay → IdsFresh s' := by
    intro s' hr id t ht
    have ht' : s.tasks id = some t := by
      rw [← ht]
      exact congrFun (congrArg RelayPart.tasks hr).symm id
    exact lt_of_lt_of_eq (hs id t ht') (congrArg RelayPart.nextConn hr).symm
  cases h with
  | book hp hr => exact hrelay s' hr
  | touch mac p p' hl hp hp' hr => exact hrelay s' hr
  | create mac p' hl hp hp' hr => exact hrelay s' hr
  | renew mac p p' listeners hl hp hlen hp' hr =>
    intro id t ht
    have ht' : s.tasks id = some t := by
      rw [← ht]
      exact congrFun (congrArg RelayPart.tasks hr).symm id
    exact lt_of_lt_of_eq (hs id t ht') (congrArg RelayPart.nextConn hr).symm
  | remove mac hs' =>
    rw [hs', removePeer]
    split
    · exact hs
    · exact hs

theorem applyMsg_ids {s : Server S} (hs : IdsFresh s) (mac : Mac) (h : SocketHandle)
    (peer : Peer S) (conn : ServerConn) (q : Queued) :
    IdsFresh (s.applyMsg ops mac h peer conn q) := by
  simp only [applyMsg]
  split
  · exact hs
  · split
    · exact hs
    split
    · exact hs
    · exact hs

theorem onToRx_ids {s : Server S} (hs : IdsFresh s) : IdsFresh (s.onToRx P ops env) := by
  unfold onToRx
  split
  · exact hs
  split
  · dsimp only
    split
    · exact hs
    split
    · exact hs
    split
    · apply pumpSession_ids
      apply applyMsg_ids
      exact hs
    · exact hs
  · exact hs

theorem step_ids {s : Server S} (hs : IdsFresh s) (e : Event) :
    IdsFresh (s.step P ops cfg master env e) := by
  cases e with
  | frame mac ifindex raw =>
    simp only [step]
    split
    · rcases onFrame_moves P ops cfg master env s mac ifindex raw with hmoves | ⟨s₁, sid, ht, heq⟩
      · exact hmoves.preserves IdsFresh.move hs
      · rw [heq]
        exact pumpPeer_ids P ops env (IdsFresh.move s s₁ hs ht.move) mac sid
    · exact hs
  | recvFailed => exact hs
  | toRx =>
    simp only [step]
    split
    · exact onToRx_ids P ops env hs
    · exact hs
  | wake =>
    simp only [step]
    split
    · apply pumpEach_ids
      exact hs
    · exact hs
  | poll =>
    simp only [step]
    split
    · exact pumpEach_ids P ops env _ hs
    · exact hs
  | sweep =>
    simp only [step]
    split
    · exact (onSweep_moves P env s).preserves IdsFresh.move hs
    · exact hs
  | shutdown =>
    simp only [step]
    split
    · exact (onShutdown_moves P env s).preserves IdsFresh.move hs
    · exact hs
  | task id act =>
    simp only [step]
    split
    · exact hs
    next t hl =>
      have hm := taskStep_moves cfg s id t act
      intro id' t' ht'
      rw [hm.nextConn]
      rcases hm.tasks id' t' ht' with hold | ⟨rfl, -⟩
      · exact hs id' t' hold
      · exact hs id' t hl

theorem run_ids (events : List (ServerEnv × Event)) {s : Server S} (hs : IdsFresh s) :
    IdsFresh (s.run P ops cfg master events) := by
  unfold run
  induction events generalizing s with
  | nil => exact hs
  | cons e es ih => exact ih (step_ids P ops cfg master e.1 hs e.2)

theorem init_ids (now : Instant) : IdsFresh (Server.init now : Server S) := by
  intro id t ht
  exact absurd ht (by simp [Server.init])

def liveKeys (s : Server S) : List ServerConnKey :=
  (((List.range s.nextConn).filterMap s.tasks).filter (fun t => t.phase ≠ .done)).map ConnTask.key ++
    s.toRx.map Queued.key

def generationsFree (s : Server S) : Bool :=
  s.peers.entries.all (fun e => s.liveKeys.all (fun key => key.1 ≠ e.1 ||
    (List.range e.2.listeners.length).all (fun k =>
      key.2.2 ≠ succGeneration^[k] e.2.nextGeneration)))

theorem generationsFree_sound {s : Server S} (hs : IdsFresh s) (h : s.generationsFree = true) :
    s.GenerationsFree := by
  intro mac p hp key origin hlive hmac k hk
  have hmem : (⟨mac, p⟩ : Sigma (fun _ : Mac => Peer S)) ∈ s.peers.entries :=
    AList.mem_lookup_iff.mp hp
  have hkey : key ∈ s.liveKeys := by
    rcases hlive with ⟨t, ht, hph, rfl⟩ | ⟨q, hq, rfl, -⟩
    · apply List.mem_append_left
      apply List.mem_map_of_mem
      rw [List.mem_filter]
      refine ⟨List.mem_filterMap.mpr ⟨origin, ?_, ht⟩, by simpa using hph⟩
      exact List.mem_range.mpr (hs origin t ht)
    · exact List.mem_append_right _ (List.mem_map_of_mem hq)
  have hall := List.all_eq_true.mp (List.all_eq_true.mp h _ hmem) key hkey
  rw [Bool.or_eq_true] at hall
  rcases hall with hne | hall
  · exact absurd hmac (by simpa using hne)
  · simpa using List.all_eq_true.mp hall k (List.mem_range.mpr hk)

end Ids

def sampleConnection (discoverId serverNonce clientNonce : UInt64) : List (ServerEnv × Event) :=
  [sampleFrame 0 serverNonce (sampleDiscover discoverId),
    sampleFrame 0 0 (sampleLogin serverNonce clientNonce)] ++
  (sampleSession serverNonce clientNonce [(typeData, [0, 22])]).map (sampleFrame 0 0)

def sampleRelayed : List (ServerEnv × Event) :=
  sampleConnection 1 11 21 ++
  [(sampleEnv 0 0, .task 0 .recv), (sampleEnv 0 0, .task 0 (.dial true true)),
    (sampleEnv 0 0, .task 0 (.read (some [7]))), (sampleEnv 0 0, .task 0 .send),
    (sampleEnv 0 0, .toRx)]

/-- No generation is reused on this run, and its one message stays at home. -/
theorem sampleRelayed_own :
    ((Server.init 0 : Server TableStack).run sampleP tableStackOps sampleConfig sampleMaster
        sampleRelayed).applied = [(0, 0)] ∧
      ∀ n, ∀ x ∈ ((Server.init 0 : Server TableStack).run sampleP tableStackOps sampleConfig
        sampleMaster (sampleRelayed.take n)).applied, x.1 = x.2 := by
  refine ⟨by decide +kernel, ?_⟩
  apply run_applied_own
  intro n
  apply generationsFree_sound (run_ids _ _ _ _ _ (init_ids 0))
  -- Longer prefixes than the run itself are the run itself.
  have hall : ∀ n ≤ 8, ((Server.init 0 : Server TableStack).run sampleP tableStackOps sampleConfig
      sampleMaster (sampleRelayed.take n)).generationsFree = true := by decide +kernel
  have hlen : sampleRelayed.length = 8 := by decide +kernel
  rcases Nat.le_total n 8 with hn | hn
  · exact hall n hn
  · rw [List.take_of_length_le (by rw [hlen]; exact hn), ← List.take_length (l := sampleRelayed), hlen]
    exact hall 8 le_rfl

/-- The client tears its session down and connects again, while the task of the first
connection still reads from its dialed socket. -/
def sampleReconnect : List (ServerEnv × Event) :=
  sampleConnection 1 11 21 ++
  [(sampleEnv 0 0, .task 0 .recv), (sampleEnv 0 0, .task 0 (.dial true true))] ++
  ((sampleSession 11 21 [(typeData, [0, 22]), (typeTeardown, [])]).drop 1).map (sampleFrame 0 0) ++
  sampleConnection 2 12 22 ++
  [(sampleEnv 0 0, .task 0 (.read (some [7]))), (sampleEnv 0 0, .task 0 .send),
    (sampleEnv 0 0, .toRx)]

/-- The bytes of the first connection end up in the second one. -/
theorem sampleReconnect_crosses :
    ¬ ∀ x ∈ ((Server.init 0 : Server TableStack).run sampleP tableStackOps sampleConfig sampleMaster
      sampleReconnect).applied, x.1 = x.2 := by
  decide +kernel

end Server

end LandscapeKit.Flare
