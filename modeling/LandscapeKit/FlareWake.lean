import Mathlib.Data.List.Perm.Basic
import Mathlib.Data.List.Infix
import Mathlib.Data.Nat.Basic

/-!
`RelayWake` (`relay.rs`): connection keys that made progress, coalesced in a set, and a
tokio `Notify` that tells the event loop to look. Producers and the event loop run on
different threads, so `notify` is two steps (the insert under the lock, then `notify_one`)
and `recv` is one step for each time it takes the lock or touches the `Notify`.
-/

namespace LandscapeKit.Flare

inductive Waiter
  | none
  | waiting
  | notified
deriving DecidableEq

structure Notify where
  permit : Bool
  waiter : Waiter
deriving DecidableEq

namespace Notify

def notifyOne (n : Notify) : Notify :=
  if n.waiter = .waiting then { n with waiter := .notified } else { n with permit := true }

/-- Dropping a registered future. A notification it got and did not use goes back to the
permit when the runtime `forwards` it; nothing below depends on that. -/
def dropWaiter (n : Notify) (forwards : Bool) : Notify :=
  { permit := n.permit || (forwards && n.waiter = .notified), waiter := .none }

end Notify

/-- Where `RelayWake::recv` is: about to drain the set, about to poll `notified()` after it
found the set empty, or suspended at the await. -/
inductive RecvState
  | drain
  | check
  | await
deriving DecidableEq

inductive WakeLog (K : Type)
  | notified (key : K)
  | returned (keys : List K)
deriving DecidableEq

structure Wake (K : Type) where
  keys : List K
  notify : Notify
  inFlight : List K
  consumer : RecvState
  log : List (WakeLog K)

inductive WakeEvent (K : Type)
  /-- A `RelayReceiver` got a message or was dropped; `notify(key)` inserts the key. -/
  | progress (key : K)
  /-- A `notify(key)` that inserted a new key goes on to `notify_one`. -/
  | notifyOne (key : K)
  /-- The event loop runs `recv` to its next step. -/
  | recv
  /-- `select!` drops the suspended `recv`. -/
  | cancel (forwards : Bool)

def WakeEvent.isRecv {K : Type} : WakeEvent K → Bool
  | .recv => true
  | _ => false

def WakeEvent.isCancel {K : Type} : WakeEvent K → Bool
  | .cancel _ => true
  | _ => false

structure HashOrder (K : Type) where
  order : List K → List K
  perm : ∀ keys, (order keys).Perm keys

namespace Wake

variable {K : Type} [DecidableEq K] (hash : HashOrder K)

def init : Wake K := ⟨[], ⟨false, .none⟩, [], .drain, []⟩

def insert (w : Wake K) (key : K) : Wake K :=
  if key ∈ w.keys then { w with log := w.log ++ [.notified key] }
  else { w with
    keys := key :: w.keys, inFlight := key :: w.inFlight, log := w.log ++ [.notified key] }

def recv (w : Wake K) : Wake K :=
  match w.consumer with
  | .drain =>
    if w.keys = [] then { w with consumer := .check }
    else { w with keys := [], log := w.log ++ [.returned (hash.order w.keys)] }
  | .check =>
    if w.notify.permit then
      { w with notify := { w.notify with permit := false }, consumer := .drain }
    else { w with notify := { w.notify with waiter := .waiting }, consumer := .await }
  | .await =>
    if w.notify.waiter = .notified then
      { w with notify := { w.notify with waiter := .none }, consumer := .drain }
    else w

def step (w : Wake K) : WakeEvent K → Wake K
  | .progress key => w.insert key
  | .notifyOne key =>
    if key ∈ w.inFlight then
      { w with notify := w.notify.notifyOne, inFlight := w.inFlight.erase key }
    else w
  | .recv => w.recv hash
  | .cancel forwards =>
    if w.consumer = .await then
      { w with notify := w.notify.dropWaiter forwards, consumer := .drain }
    else w

def run (w : Wake K) (es : List (WakeEvent K)) : Wake K := es.foldl (step hash) w

def Ready (w : Wake K) : Prop :=
  match w.consumer with
  | .drain => True
  | .check => w.notify.permit = true
  | .await => w.notify.waiter = .notified

/-- What keeps a wake-up from getting lost: past the drain, keys in the set are announced
by the permit or the waiter, or by a `notify` call that has not reached `notify_one`. -/
structure Announced (w : Wake K) : Prop where
  ready : w.keys ≠ [] → w.inFlight = [] → w.Ready
  waiter : w.consumer ≠ .await → w.notify.waiter = .none
  await : w.consumer = .await → w.notify.waiter ≠ .none

def Delivered (w : Wake K) : Prop :=
  ∀ (i : ℕ) (key : K), w.log[i]? = some (WakeLog.notified key) →
    key ∈ w.keys ∨ ∃ j keys, i < j ∧ w.log[j]? = some (WakeLog.returned keys) ∧ key ∈ keys

/-- Two steps of `recv`, whatever producers do meanwhile and with no cancellation, return
keys: a result is logged after what the log held. -/
def CompletesNext (w : Wake K) : Prop :=
  ∀ es : List (WakeEvent K), (∀ e ∈ es, e.isCancel = false) → 2 ≤ es.countP WakeEvent.isRecv →
    ∃ keys, .returned keys ∈ (run hash w es).log.drop w.log.length

omit [DecidableEq K] in
theorem getElem?_append_log {l m : List (WakeLog K)} {i : ℕ} {x : WakeLog K}
    (h : l[i]? = some x) : (l ++ m)[i]? = some x := by
  obtain ⟨hi, -⟩ := List.getElem?_eq_some_iff.mp h
  rw [List.getElem?_append_left hi, h]

theorem delivered_insert {w : Wake K} (h : w.Delivered) (key : K) : (w.insert key).Delivered := by
  have hsub : ∀ k ∈ w.keys, k ∈ (w.insert key).keys := by
    intro k hk
    unfold insert
    split
    · exact hk
    · exact List.mem_cons_of_mem key hk
  have hnew : key ∈ (w.insert key).keys := by
    unfold insert
    split
    · assumption
    · exact List.mem_cons_self
  have hlog : (w.insert key).log = w.log ++ [.notified key] := by
    unfold insert
    split <;> rfl
  intro i k hi
  rw [hlog] at hi ⊢
  rcases lt_or_ge i w.log.length with hlt | hge
  · rw [List.getElem?_append_left hlt] at hi
    rcases h i k hi with hk | ⟨j, keys, hij, hj, hk⟩
    · exact .inl (hsub k hk)
    · exact .inr ⟨j, keys, hij, getElem?_append_log hj, hk⟩
  · rw [List.getElem?_append_right hge, List.getElem?_singleton] at hi
    split at hi
    · simp only [Option.some.injEq, WakeLog.notified.injEq] at hi
      exact .inl (hi ▸ hnew)
    · exact absurd hi (by simp)

omit [DecidableEq K] in
theorem delivered_recv {w : Wake K} (h : w.Delivered) : (w.recv hash).Delivered := by
  unfold recv
  split
  · split
    · exact h
    · -- the drain hands over the whole set, so every key notified so far is in a result
      intro i key hi
      right
      rcases lt_or_ge i w.log.length with hlt | hge
      · rw [List.getElem?_append_left hlt] at hi
        rcases h i key hi with hk | ⟨j, keys, hij, hj, hk⟩
        · refine ⟨w.log.length, hash.order w.keys, hlt, ?_, (hash.perm _).mem_iff.mpr hk⟩
          exact List.getElem?_concat_length
        · exact ⟨j, keys, hij, getElem?_append_log hj, hk⟩
      · rw [List.getElem?_append_right hge, List.getElem?_singleton] at hi
        split at hi <;> exact absurd hi (by simp)
  · split <;> exact h
  · split <;> exact h

theorem delivered_step {w : Wake K} (h : w.Delivered) (e : WakeEvent K) :
    (w.step hash e).Delivered := by
  cases e with
  | progress key => exact delivered_insert h key
  | notifyOne key =>
    simp only [step]
    split <;> exact h
  | recv => exact delivered_recv hash h
  | cancel forwards =>
    simp only [step]
    split <;> exact h

/-- A `notify_one` leaves `recv` ready: the permit is there for a consumer past the drain,
and the waiter is notified for one that is suspended. -/
theorem ready_notifyOne {w : Wake K} (ha : w.Announced) {key : K} (hk : key ∈ w.inFlight) :
    (w.step hash (.notifyOne key)).Ready := by
  simp only [step, hk, if_true, Ready, Notify.notifyOne]
  cases hc : w.consumer with
  | drain => trivial
  | check =>
    have hw := ha.waiter (by simp [hc])
    simp [hw]
  | await =>
    have hw := ha.await hc
    cases hn : w.notify.waiter with
    | none => exact absurd hn hw
    | waiting => simp
    | notified => simp

theorem announced_step {w : Wake K} (ha : w.Announced) (e : WakeEvent K) :
    (w.step hash e).Announced := by
  cases e with
  | progress key =>
    simp only [step, insert]
    split
    · exact ⟨ha.ready, ha.waiter, ha.await⟩
    · exact ⟨fun _ h => absurd h (by simp), ha.waiter, ha.await⟩
  | notifyOne key =>
    by_cases hk : key ∈ w.inFlight
    · refine ⟨fun _ _ => ready_notifyOne hash ha hk, ?_, ?_⟩
      · simp only [step, hk, if_true, Notify.notifyOne]
        intro hc
        have hw := ha.waiter hc
        simp [hw]
      · simp only [step, hk, if_true, Notify.notifyOne]
        intro hc
        have hw := ha.await hc
        split <;> simp [hw]
    · simp only [step, hk, if_false]
      exact ha
  | recv =>
    simp only [step, recv]
    split
    · rename_i hc
      split
      · rename_i hk
        exact ⟨fun h => absurd hk h, fun _ => ha.waiter (by simp [hc]), fun h => absurd h (by simp)⟩
      · exact ⟨fun h => absurd rfl h, fun _ => ha.waiter (by simp [hc]), fun h => by simp [hc] at h⟩
    · rename_i hc
      have hw := ha.waiter (by simp [hc])
      split
      · exact ⟨fun _ _ => trivial, fun _ => hw, fun h => absurd h (by simp)⟩
      · rename_i hp
        refine ⟨fun hk hf => ?_, fun h => absurd rfl h, fun _ => by simp⟩
        -- keys with no call in flight would have left the permit
        have hr := ha.ready hk hf
        rw [Ready, hc] at hr
        exact absurd hr hp
    · rename_i hc
      split
      · exact ⟨fun _ _ => trivial, fun _ => rfl, fun h => absurd h (by simp)⟩
      · exact ha
  | cancel forwards =>
    simp only [step]
    split
    · exact ⟨fun _ _ => trivial, fun _ => rfl, fun h => absurd h (by simp)⟩
    · exact ha

/-- Along a run the set is announced, everything notified is delivered, and only non-empty
results have been returned. -/
structure Sound (w : Wake K) : Prop where
  announced : w.Announced
  delivered : w.Delivered
  nonempty : ∀ keys, .returned keys ∈ w.log → keys ≠ []

theorem nonempty_step {w : Wake K} (h : ∀ keys, .returned keys ∈ w.log → keys ≠ [])
    (e : WakeEvent K) : ∀ keys, .returned keys ∈ (w.step hash e).log → keys ≠ [] := by
  intro keys hmem
  cases e with
  | progress key =>
    have hlog : (w.insert key).log = w.log ++ [.notified key] := by
      unfold insert
      split <;> rfl
    rw [step, hlog, List.mem_append, List.mem_singleton] at hmem
    rcases hmem with hm | hm
    · exact h keys hm
    · exact absurd hm (by simp)
  | notifyOne key =>
    simp only [step] at hmem
    split at hmem <;> exact h keys hmem
  | recv =>
    simp only [step, recv] at hmem
    split at hmem
    · split at hmem
      · exact h keys hmem
      · rename_i hne
        rw [List.mem_append, List.mem_singleton] at hmem
        rcases hmem with hm | hm
        · exact h keys hm
        · rw [WakeLog.returned.injEq] at hm
          intro he
          have hlen := (hash.perm w.keys).length_eq
          rw [← hm, he] at hlen
          exact hne (List.eq_nil_of_length_eq_zero hlen.symm)
    · split at hmem <;> exact h keys hmem
    · split at hmem <;> exact h keys hmem
  | cancel forwards =>
    simp only [step] at hmem
    split at hmem <;> exact h keys hmem

omit [DecidableEq K] in
theorem Sound.init : (Wake.init : Wake K).Sound where
  announced := ⟨fun h => absurd rfl h, fun _ => rfl, fun h => absurd h (by simp [Wake.init])⟩
  delivered := fun i key h => absurd h (by simp [Wake.init])
  nonempty := fun keys h => absurd h (by simp [Wake.init])

theorem Sound.step {w : Wake K} (h : w.Sound) (e : WakeEvent K) : (w.step hash e).Sound :=
  ⟨announced_step hash h.announced e, delivered_step hash h.delivered e,
    nonempty_step hash h.nonempty e⟩

theorem Sound.run {w : Wake K} (h : w.Sound) (es : List (WakeEvent K)) :
    (w.run hash es).Sound := by
  induction es generalizing w with
  | nil => exact h
  | cons e es ih => exact ih (h.step hash e)

theorem log_prefix_step (w : Wake K) (e : WakeEvent K) : w.log <+: (w.step hash e).log := by
  cases e with
  | progress key =>
    simp only [Wake.step, insert]
    split <;> exact List.prefix_append _ _
  | notifyOne key =>
    simp only [Wake.step]
    split <;> exact List.prefix_refl _
  | recv =>
    simp only [Wake.step, recv]
    split
    · split
      · exact List.prefix_refl _
      · exact List.prefix_append _ _
    · split <;> exact List.prefix_refl _
    · split <;> exact List.prefix_refl _
  | cancel forwards =>
    simp only [Wake.step]
    split <;> exact List.prefix_refl _

theorem log_prefix_run (w : Wake K) (es : List (WakeEvent K)) : w.log <+: (w.run hash es).log := by
  induction es generalizing w with
  | nil => exact List.prefix_refl _
  | cons e es ih => exact (log_prefix_step hash w e).trans (ih _)

def needed (w : Wake K) : ℕ := if w.consumer = .drain then 1 else 2

theorem ready_step {w : Wake K} (hr : w.Ready) (hk : w.keys ≠ []) {e : WakeEvent K}
    (he : e.isCancel = false) (hn : e.isRecv = false) :
    (w.step hash e).Ready ∧ (w.step hash e).keys ≠ [] ∧ (w.step hash e).needed = w.needed := by
  cases e with
  | progress key =>
    simp only [Wake.step, insert]
    split
    · exact ⟨hr, hk, rfl⟩
    · exact ⟨hr, by simp, rfl⟩
  | notifyOne key =>
    simp only [Wake.step]
    split
    · refine ⟨?_, hk, rfl⟩
      unfold Ready at hr ⊢
      unfold Notify.notifyOne
      cases hc : w.consumer with
      | drain => trivial
      | check =>
        simp only [hc] at hr ⊢
        split <;> simp [hr]
      | await =>
        simp only [hc] at hr ⊢
        simp [hr]
    · exact ⟨hr, hk, rfl⟩
  | recv => exact absurd hn (by simp [WakeEvent.isRecv])
  | cancel forwards => exact absurd he (by simp [WakeEvent.isCancel])

omit [DecidableEq K] in
theorem ready_recv {w : Wake K} (hr : w.Ready) (hk : w.keys ≠ []) :
    (w.consumer = .drain ∧
      (w.recv hash).log = w.log ++ [.returned (hash.order w.keys)]) ∨
    (w.consumer ≠ .drain ∧ (w.recv hash).consumer = .drain ∧ (w.recv hash).keys = w.keys ∧
      (w.recv hash).log = w.log) := by
  unfold Ready at hr
  unfold recv
  cases hc : w.consumer with
  | drain => simp [hk]
  | check =>
    simp only [hc] at hr
    simp [hr]
  | await =>
    simp only [hc] at hr
    simp [hr]

/-- The general form of the wake-up: a ready consumer returns keys after as many steps of
its own as it needs, however the producers are interleaved with it. -/
theorem returns_of_ready {w : Wake K} (hr : w.Ready) (hk : w.keys ≠ [])
    (es : List (WakeEvent K)) (hes : ∀ e ∈ es, e.isCancel = false)
    (hcount : w.needed ≤ es.countP WakeEvent.isRecv) :
    ∃ keys, .returned keys ∈ (run hash w es).log.drop w.log.length := by
  induction es generalizing w with
  | nil =>
    exfalso
    simp only [needed, List.countP_nil] at hcount
    split at hcount <;> omega
  | cons e es ih =>
    have hrest : ∀ e' ∈ es, e'.isCancel = false := fun e' h => hes e' (List.mem_cons_of_mem e h)
    by_cases he : e.isRecv = true
    · obtain rfl : e = .recv := by
        cases e <;> simp_all [WakeEvent.isRecv]
      rw [List.countP_cons_of_pos he] at hcount
      rcases ready_recv hash hr hk with ⟨_, hlog⟩ | ⟨hne, hc, hkeys, hlog⟩
      · -- the set is returned here; later events only extend the log
        obtain ⟨more, hmore⟩ := log_prefix_run hash (w.recv hash) es
        refine ⟨hash.order w.keys, ?_⟩
        have hrun : (run hash w (.recv :: es)).log =
            w.log ++ (.returned (hash.order w.keys) :: more) := by
          change (run hash (w.recv hash) es).log = _
          rw [← hmore, hlog, List.append_assoc, List.singleton_append]
        rw [hrun, List.drop_left]
        exact List.mem_cons_self
      · have hready : (w.recv hash).Ready := by
          rw [Ready, hc]
          trivial
        have hneed : (w.recv hash).needed ≤ es.countP WakeEvent.isRecv := by
          simp only [needed, hne, if_false] at hcount
          simp only [needed, hc, if_true]
          omega
        have := ih hready (by rw [hkeys]; exact hk) hrest hneed
        rwa [hlog] at this
    · have hf : e.isRecv = false := by simpa using he
      obtain ⟨hr1, hk1, hn1⟩ := ready_step hash hr hk (hes e List.mem_cons_self) hf
      rw [List.countP_cons_of_neg he, ← hn1] at hcount
      obtain ⟨keys, hmem⟩ := ih hr1 hk1 hrest hcount
      have hle := (log_prefix_step hash w e).length_le
      refine ⟨keys, ?_⟩
      rw [← Nat.add_sub_cancel' hle, ← List.drop_drop] at hmem
      exact List.mem_of_mem_drop hmem

theorem completesNext_of_ready {w : Wake K} (hr : w.Ready) (hk : w.keys ≠ []) :
    w.CompletesNext hash := by
  intro es hes hcount
  refine returns_of_ready hash hr hk es hes (le_trans ?_ hcount)
  unfold needed
  split <;> omega

/-- No wake-up is lost, in any interleaving of producers, `recv` and cancellations. What was
notified is returned later or still in the set; no result is empty; and while the set has
keys the next poll of `recv` completes, for a suspended `recv` as soon as the `notify` calls
that already inserted their key have reached `notify_one`. -/
theorem run_no_lost_wake (es : List (WakeEvent K)) :
    (run hash init es).Delivered ∧
    (∀ keys, .returned keys ∈ (run hash init es).log → keys ≠ []) ∧
    ((run hash init es).keys ≠ [] →
      ((run hash init es).inFlight = [] ∨ (run hash init es).consumer = .drain →
        (run hash init es).CompletesNext hash) ∧
      ∀ key ∈ (run hash init es).inFlight,
        ((run hash init es).step hash (.notifyOne key)).CompletesNext hash) := by
  have hs := (Sound.init (K := K)).run hash es
  refine ⟨hs.delivered, hs.nonempty, fun hk => ⟨fun h => ?_, fun key hkey => ?_⟩⟩
  · apply completesNext_of_ready hash _ hk
    rcases h with h | h
    · exact hs.announced.ready hk h
    · rw [Ready, h]
      trivial
  · apply completesNext_of_ready hash (ready_notifyOne hash hs.announced hkey)
    simp only [Wake.step, hkey, if_true]
    exact hk

end Wake

end LandscapeKit.Flare
