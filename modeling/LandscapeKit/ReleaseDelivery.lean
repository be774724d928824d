import LandscapeKit.ReleaseDownload

/-!
What the download loops make of what the server sends. One attempt is passed over or ends the
loop; from that come the number of requests, the file that is left, and which body is returned. An
answer with the status 200 that carries `Retry-After` is taken for a refusal.
-/

namespace LandscapeKit.Download

section Specification

/-- What a loop is for: the answers that deliver a result and a file, and those that break off in a
way worth another attempt. -/
structure Service (α : Type) where
  whole : Response → α → Option Bytes → Prop
  torn : Response → Prop

variable {α : Type} (S : Service α)

def FailsRetryably : Attempt → Prop
  | .failed error => isRetryableRequestError error
  | .answered response =>
    if response.status = ok then S.torn response
    else
      match rateLimitWait response.status response.headers response.now with
      | some seconds => seconds ≤ retryAfterLimit
      | none => retryableStatus response.status

def Delivers (a : α) (file : Option Bytes) : Attempt → Prop
  | .failed _ => False
  | .answered response => response.status = ok ∧ S.whole response a file

def Held : Attempt → Prop
  | .failed _ => False
  | .answered response => headerNumber "retry-after" response.headers ≠ none

def PassedOver : Attempt → Prop
  | .failed error => isRetryableRequestError error
  | .answered response =>
    match rateLimitWait response.status response.headers response.now with
    | some seconds => seconds ≤ retryAfterLimit
    | none => retryableStatus response.status ∨ response.status = ok ∧ S.torn response

/-- The result of the first attempt that delivers, after attempts that failed in a retryable way
only, is what the loop ends with. -/
def Returned (server : ℕ → Attempt) (run : Run α) : Prop :=
  ∀ k < maxAttempts, (∀ j < k, FailsRetryably S (server j)) → ∀ a file,
    Delivers S a file (server k) → run.outcome = .returned (.ok a) ∧ run.file = file

/-- Every result that is delivered after retryable failures is delivered without `Retry-After`, by
that attempt or by a later one that the loop comes to. -/
def Unhindered (server : ℕ → Attempt) : Prop :=
  ∀ k < maxAttempts, (∀ j < k, FailsRetryably S (server j)) → ∀ a file,
    Delivers S a file (server k) →
      ∃ j, k ≤ j ∧ j < maxAttempts ∧ ¬Held (server j) ∧ Delivers S a file (server j) ∧
        ∀ i < j, PassedOver S (server i)

end Specification

section Attempts

variable {α : Type} {S : Service α} {L : Loop α} {server : ℕ → Attempt}

structure Serves (S : Service α) (L : Loop α) : Prop where
  whole : ∀ r a file, L.body r = (.ok a, file) ↔ S.whole r a file
  torn : ∀ r, S.torn r ↔ ∃ e file, L.body r = (.error e, file) ∧ e.isRetryable
  early : L.early ok = none

theorem rateLimitWait_ok (headers : List (String × Bytes)) (now : ℕ) :
    rateLimitWait ok headers now = headerNumber "retry-after" headers := by
  rw [rateLimitWait, if_neg (by decide)]
  cases headerNumber "retry-after" headers with
  | none => rfl
  | some seconds => rfl

theorem retryableStatus_ok : retryableStatus ok = false := by decide

theorem afterBackoff_eq {n : ℕ} (h : n < maxAttempts - 1) (next : Run α) :
    afterBackoff n next = next.counted := by
  match n, h with
  | 0, _ | 1, _ => rfl

theorem wait_of_delivers {r : Response} {a : α} {file : Option Bytes}
    (hd : Delivers S a file (.answered r)) (hh : ¬Held (.answered r)) :
    rateLimitWait r.status r.headers r.now = none := by
  rw [hd.1, rateLimitWait_ok]
  exact not_not.mp hh

theorem Serves.not_torn (hS : Serves S L) {r : Response} {a : α} {file : Option Bytes}
    (hwhole : S.whole r a file) : ¬S.torn r := by
  intro htorn
  obtain ⟨e, left, hbody, -⟩ := (hS.torn r).mp htorn
  rw [(hS.whole r a file).mpr hwhole] at hbody
  cases hbody

theorem not_passedOver (hS : Serves S L) {attempt : Attempt} {a : α} {file : Option Bytes}
    (hh : ¬Held attempt) (hd : Delivers S a file attempt) : ¬PassedOver S attempt := by
  match attempt with
  | .failed error => exact hd.elim
  | .answered r =>
    simp only [PassedOver, wait_of_delivers hd hh]
    rintro (hretry | ⟨-, htorn⟩)
    · rw [hd.1, retryableStatus_ok] at hretry
      cases hretry
    · exact hS.not_torn hd.2 htorn

theorem Loop.run_answered (L : Loop α) {n : ℕ} (attempts : List ℕ) (file : Option Bytes)
    {r : Response} (hserver : server n = .answered r)
    (hwait : rateLimitWait r.status r.headers r.now = none) :
    L.run server (n :: attempts) file =
      if retryableStatus r.status ∧ n < maxAttempts - 1 then
        (L.run server attempts (L.before file)).counted
      else
        match L.early r.status with
        | some result => ⟨.returned result, 1, L.before file⟩
        | none =>
          if r.status ≠ ok then
            ⟨.returned (.error (.unexpectedStatus r.status)), 1, L.before file⟩
          else
            match L.body r with
            | (.ok a, left) => ⟨.returned (.ok a), 1, left⟩
            | (.error e, left) =>
              if e.isRetryable ∧ n < maxAttempts - 1 then
                (L.run server attempts (L.dropped left)).counted
              else ⟨.returned (.error e), 1, L.dropped left⟩ := by
  have hbackoff (next : Run α) (e : Bool) (stop : Run α) :
      (if e = true ∧ n < maxAttempts - 1 then afterBackoff n next else stop) =
        if e = true ∧ n < maxAttempts - 1 then next.counted else stop := by
    by_cases h : e = true ∧ n < maxAttempts - 1
    · rw [if_pos h, if_pos h, afterBackoff_eq h.2]
    · rw [if_neg h, if_neg h]
  rw [Loop.run, hserver]
  dsimp only
  rw [hwait]
  dsimp only
  rw [hbackoff]
  by_cases hretry : retryableStatus r.status = true ∧ n < maxAttempts - 1
  · rw [if_pos hretry, if_pos hretry]
  rw [if_neg hretry, if_neg hretry]
  rcases L.early r.status with _ | result
  · dsimp only
    by_cases hok : r.status ≠ ok
    · rw [if_pos hok, if_pos hok]
    rw [if_neg hok, if_neg hok]
    rcases L.body r with ⟨e | a, left⟩
    · exact hbackoff _ _ _
    · rfl
  · rfl

theorem ends_error {n : ℕ} {attempts : List ℕ} {file : Option Bytes} (left : Option Bytes)
    (e : RepositoryError)
    (hrun : L.run server (n :: attempts) file = ⟨.returned (.error e), 1, left⟩)
    (hpass : n < maxAttempts - 1 → ¬PassedOver S (server n))
    (hdelivers : ∀ a f, ¬Held (server n) → ¬Delivers S a f (server n))
    (hleft : left = L.before file ∨ ∃ body, left = L.dropped body) :
    ∃ result left, L.run server (n :: attempts) file = ⟨.returned result, 1, left⟩ ∧
      (n < maxAttempts - 1 → ¬PassedOver S (server n)) ∧
      (∀ a f, ¬Held (server n) → Delivers S a f (server n) → result = .ok a ∧ left = f) ∧
      (∀ a, result = .ok a → (∃ status, L.early status = some (.ok a)) ∨
        ¬Held (server n) ∧ Delivers S a left (server n)) ∧
      (∀ e, result = .error e → left = L.before file ∨ ∃ body, left = L.dropped body) :=
  ⟨_, left, hrun, hpass, fun a f hh hd => absurd hd (hdelivers a f hh), by nofun, fun _ _ => hleft⟩

theorem Loop.run_cons (hS : Serves S L) (server : ℕ → Attempt) (n : ℕ) (attempts : List ℕ) (file : Option Bytes) :
    (n < maxAttempts - 1 ∧ PassedOver S (server n) ∧ ∃ next,
      L.run server (n :: attempts) file = (L.run server attempts next).counted) ∨
    (∃ result left, L.run server (n :: attempts) file = ⟨.returned result, 1, left⟩ ∧
      (n < maxAttempts - 1 → ¬PassedOver S (server n)) ∧
      (∀ a f, ¬Held (server n) → Delivers S a f (server n) → result = .ok a ∧ left = f) ∧
      (∀ a, result = .ok a → (∃ status, L.early status = some (.ok a)) ∨
        ¬Held (server n) ∧ Delivers S a left (server n)) ∧
      (∀ e, result = .error e → left = L.before file ∨ ∃ body, left = L.dropped body)) := by
  obtain ⟨attempt, hserver⟩ : ∃ attempt, server n = attempt := ⟨_, rfl⟩
  match attempt with
  | .failed error =>
    by_cases hretry : isRetryableRequestError error = true ∧ n < maxAttempts - 1
    · left
      refine ⟨hretry.2, by rw [hserver]; exact hretry.1, L.before file, ?_⟩
      rw [Loop.run, hserver]
      dsimp only
      rw [if_pos (by simpa using hretry), afterBackoff_eq hretry.2]
    · right
      refine ends_error (L.before file) (.request error) ?_ ?_ ?_ (.inl rfl)
      · rw [Loop.run, hserver]
        dsimp only
        rw [if_neg (by simpa using hretry)]
      · intro hmore hpass
        rw [hserver] at hpass
        exact hretry ⟨hpass, hmore⟩
      · intro a f _ hd
        rw [hserver] at hd
        exact hd
  | .answered r =>
    rcases hwait : rateLimitWait r.status r.headers r.now with _ | seconds
    · have hrun := L.run_answered attempts file hserver hwait
      have hpasses : PassedOver S (server n) ↔
          retryableStatus r.status ∨ r.status = ok ∧ S.torn r := by
        rw [hserver]
        simp only [PassedOver, hwait]
      by_cases hstatus : retryableStatus r.status = true ∧ n < maxAttempts - 1
      · left
        rw [if_pos hstatus] at hrun
        exact ⟨hstatus.2, hpasses.mpr (.inl hstatus.1), L.before file, hrun⟩
      · rw [if_neg hstatus] at hrun
        have hnot (htorn : r.status = ok → ¬S.torn r) :
            n < maxAttempts - 1 → ¬PassedOver S (server n) := by
          intro hmore hpass
          rcases hpasses.mp hpass with hretry | ⟨hok, ht⟩
          · exact hstatus ⟨hretry, hmore⟩
          · exact htorn hok ht
        rcases hearly : L.early r.status with _ | result
        · rw [hearly] at hrun
          dsimp only at hrun
          by_cases hok : r.status = ok
          · rw [if_neg (not_not.mpr hok)] at hrun
            rcases hbody : L.body r with ⟨e | a, left⟩
            · rw [hbody] at hrun
              dsimp only at hrun
              have hfails (a : α) (left : Option Bytes) : ¬Delivers S a left (server n) := by
                intro hd
                rw [hserver] at hd
                have hwhole := (hS.whole r a left).mpr hd.2
                rw [hbody] at hwhole
                cases hwhole
              by_cases hretry : e.isRetryable = true ∧ n < maxAttempts - 1
              · left
                rw [if_pos hretry] at hrun
                have htorn := (hS.torn r).mpr ⟨e, left, hbody, hretry.1⟩
                exact ⟨hretry.2, hpasses.mpr (.inr ⟨hok, htorn⟩), _, hrun⟩
              · right
                rw [if_neg hretry] at hrun
                refine ends_error _ e hrun ?_ (fun a f _ => hfails a f) (.inr ⟨left, rfl⟩)
                intro hmore
                refine hnot (fun _ ht => ?_) hmore
                obtain ⟨e', left', hbody', hretry'⟩ := (hS.torn r).mp ht
                rw [hbody] at hbody'
                cases hbody'
                exact hretry ⟨hretry', hmore⟩
            · right
              rw [hbody] at hrun
              have hwhole := (hS.whole r a left).mp hbody
              refine ⟨.ok a, left, hrun, hnot fun _ ht => ?_, fun b f _ hd => ?_, ?_,
                fun _ h => by cases h⟩
              · exact hS.not_torn hwhole ht
              · rw [hserver] at hd
                have hb := (hS.whole r b f).mpr hd.2
                rw [hbody] at hb
                cases hb
                exact ⟨rfl, rfl⟩
              · rintro b ⟨⟩
                right
                rw [hserver]
                refine ⟨?_, hok, hwhole⟩
                rw [Held, not_not, ← rateLimitWait_ok _ r.now, ← hok]
                exact hwait
          · right
            rw [if_pos hok] at hrun
            refine ends_error _ _ hrun (hnot fun h => absurd h hok) (fun a f _ hd => ?_) (.inl rfl)
            rw [hserver] at hd
            exact hok hd.1
        · right
          rw [hearly] at hrun
          have hne : r.status ≠ ok := by
            intro hok
            rw [hok, hS.early] at hearly
            cases hearly
          refine ⟨result, _, hrun, hnot fun h => absurd h hne, fun a f _ hd => ?_, ?_,
            fun e _ => .inl rfl⟩
          · rw [hserver] at hd
            exact absurd hd.1 hne
          · rintro a rfl
            exact .inl ⟨_, hearly⟩
    · have hdelivers (a : α) (left : Option Bytes) (hh : ¬Held (server n)) :
          ¬Delivers S a left (server n) := by
        intro hd
        rw [hserver] at hd hh
        rw [wait_of_delivers hd hh] at hwait
        cases hwait
      by_cases hlong : retryAfterLimit < seconds
      · right
        refine ends_error (L.before file) (.rateLimited seconds) ?_ ?_
          (fun a f hh => hdelivers a f hh) (.inl rfl)
        · rw [Loop.run, hserver]
          dsimp only
          rw [hwait]
          dsimp only
          rw [if_pos hlong]
        · intro _ hpass
          rw [hserver] at hpass
          simp only [PassedOver, hwait] at hpass
          omega
      · by_cases hmore : n < maxAttempts - 1
        · left
          refine ⟨hmore, ?_, L.before file, ?_⟩
          · rw [hserver]
            simp only [PassedOver, hwait]
            omega
          · rw [Loop.run, hserver]
            dsimp only
            rw [hwait]
            dsimp only
            rw [if_neg hlong, if_pos (by simpa using hmore)]
        · right
          refine ends_error (L.before file) (.unexpectedStatus r.status) ?_
            (fun h => absurd h hmore) (fun a f hh => hdelivers a f hh) (.inl rfl)
          rw [Loop.run, hserver]
          dsimp only
          rw [hwait]
          dsimp only
          rw [if_neg hlong, if_neg (by simpa using hmore)]

end Attempts

section Runs

variable {α : Type} {S : Service α} {L : Loop α} {server : ℕ → Attempt}

def remaining (n : ℕ) : List ℕ := List.range' n (maxAttempts - n)

theorem remaining_cons {n : ℕ} (h : n < maxAttempts) : remaining n = n :: remaining (n + 1) := by
  have hlength : maxAttempts - n = maxAttempts - (n + 1) + 1 := by omega
  rw [remaining, hlength, List.range'_succ, remaining]

theorem Loop.run_bounded (hS : Serves S L) (server : ℕ → Attempt) (n : ℕ)
    (hn : n < maxAttempts) (file : Option Bytes) :
    (L.run server (remaining n) file).requests ≤ maxAttempts - n ∧
      (L.run server (remaining n) file).outcome ≠ .panicked := by
  induction hleft : maxAttempts - 1 - n generalizing n file with
  | zero =>
    rw [remaining_cons hn]
    rcases L.run_cons hS server n (remaining (n + 1)) file with
      ⟨hmore, -⟩ | ⟨result, left, hrun, -⟩
    · omega
    · rw [hrun]
      refine ⟨?_, nofun⟩
      dsimp only
      omega
  | succ k ih =>
    rw [remaining_cons hn]
    rcases L.run_cons hS server n (remaining (n + 1)) file with
      ⟨hmore, -, next, hrun⟩ | ⟨result, left, hrun, -⟩
    · obtain ⟨hrequests, hends⟩ := ih (n + 1) (by omega) next (by omega)
      rw [hrun, Run.counted]
      refine ⟨?_, hends⟩
      dsimp only
      omega
    · rw [hrun]
      refine ⟨?_, nofun⟩
      dsimp only
      omega

/-- Which result a loop ends with: that of the first answer that is not passed over, and no other.
The results of single statuses are left aside. -/
theorem Loop.run_ok_iff (hS : Serves S L) {a : α}
    (ha : ∀ status, L.early status ≠ some (.ok a)) (n : ℕ) (file left : Option Bytes) :
    ((L.run server (remaining n) file).outcome = .returned (.ok a) ∧
        (L.run server (remaining n) file).file = left) ↔
      ∃ j, n ≤ j ∧ j < maxAttempts ∧ ¬Held (server j) ∧ Delivers S a left (server j) ∧
        ∀ i, n ≤ i → i < j → PassedOver S (server i) := by
  induction hleft : maxAttempts - n generalizing n file with
  | zero =>
    have hlist : remaining n = [] := by
      rw [remaining, hleft]
      rfl
    rw [hlist]
    constructor
    · rintro ⟨houtcome, -⟩
      cases houtcome
    · rintro ⟨j, hnj, hj, -⟩
      omega
  | succ k ih =>
    have hn : n < maxAttempts := by omega
    rw [remaining_cons hn]
    rcases L.run_cons hS server n (remaining (n + 1)) file with
      ⟨hmore, hpass, next, hrun⟩ | ⟨result, stays, hrun, hstop, hdelivers, hresult, -⟩
    · rw [hrun]
      have hrest := ih (n + 1) next (by omega)
      refine hrest.trans ?_
      constructor
      · rintro ⟨j, hnj, hj, hheld, hd, hpasses⟩
        refine ⟨j, by omega, hj, hheld, hd, fun i hi hij => ?_⟩
        rcases Nat.lt_or_eq_of_le hi with hlt | rfl
        · exact hpasses i hlt hij
        · exact hpass
      · rintro ⟨j, hnj, hj, hheld, hd, hpasses⟩
        rcases Nat.lt_or_eq_of_le hnj with hlt | rfl
        · exact ⟨j, hlt, hj, hheld, hd, fun i hi hij => hpasses i (by omega) hij⟩
        · exact absurd hpass (not_passedOver hS hheld hd)
    · rw [hrun]
      constructor
      · rintro ⟨houtcome, rfl⟩
        cases houtcome
        rcases hresult a rfl with ⟨status, hearly⟩ | ⟨hheld, hd⟩
        · exact absurd hearly (ha status)
        · exact ⟨n, le_rfl, hn, hheld, hd, fun i hi hij => by omega⟩
      · rintro ⟨j, hnj, hj, hheld, hd, hpasses⟩
        rcases Nat.lt_or_eq_of_le hnj with hlt | rfl
        · exact absurd (hpasses n le_rfl hlt) (hstop (by omega))
        · obtain ⟨rfl, rfl⟩ := hdelivers a left hheld hd
          exact ⟨rfl, rfl⟩

theorem Loop.returned_iff (hS : Serves S L) (server : ℕ → Attempt)
    (hearly : ∀ r a file, S.whole r a file → ∀ status, L.early status ≠ some (.ok a))
    (file : Option Bytes) :
    Returned S server (L.run server (remaining 0) file) ↔ Unhindered S server := by
  have hfresh {k : ℕ} {a : α} {left : Option Bytes} (hd : Delivers S a left (server k)) :
      ∀ status, L.early status ≠ some (.ok a) := by
    rcases hserver : server k with error | r
    · rw [hserver] at hd
      exact hd.elim
    · rw [hserver] at hd
      exact hearly r a left hd.2
  constructor
  · intro h k hk hfails a left hd
    obtain ⟨j, -, hj, hheld, hd', hpasses⟩ :=
      (L.run_ok_iff hS (hfresh hd) 0 file left).mp (h k hk hfails a left hd)
    refine ⟨j, ?_, hj, hheld, hd', fun i hi => hpasses i (Nat.zero_le i) hi⟩
    by_contra hlt
    have hfail := hfails j (by omega)
    rcases hserver : server j with error | r
    · rw [hserver] at hd'
      exact hd'
    · rw [hserver] at hfail hd'
      rw [FailsRetryably, if_pos hd'.1] at hfail
      exact hS.not_torn hd'.2 hfail
  · intro h k hk hfails a left hd
    obtain ⟨j, -, hj, hheld, hd', hpasses⟩ := h k hk hfails a left hd
    exact (L.run_ok_iff hS (hfresh hd) 0 file left).mpr
      ⟨j, Nat.zero_le j, hj, hheld, hd', fun i _ hi => hpasses i hi⟩

theorem Loop.run_error (hS : Serves S L) (hbefore : ∀ file, L.before file = none)
    (hdropped : ∀ file, L.dropped file = none) {e : RepositoryError} (n : ℕ)
    (file : Option Bytes) (h : (L.run server (remaining n) file).outcome = .returned (.error e)) :
    (L.run server (remaining n) file).file = none := by
  induction hleft : maxAttempts - n generalizing n file with
  | zero =>
    have hlist : remaining n = [] := by
      rw [remaining, hleft]
      rfl
    rw [hlist] at h
    cases h
  | succ k ih =>
    have hn : n < maxAttempts := by omega
    rw [remaining_cons hn] at h ⊢
    rcases L.run_cons hS server n (remaining (n + 1)) file with
      ⟨hmore, -, next, hrun⟩ | ⟨result, stays, hrun, -, -, -, hfile⟩
    · rw [hrun] at h ⊢
      exact ih (n + 1) next h (by omega)
    · rw [hrun] at h ⊢
      cases h
      rcases hfile e rfl with rfl | ⟨body, rfl⟩
      · exact hbefore file
      · exact hdropped body

end Runs

section Asset

variable (sha256 : Bytes → Text) (asset : Asset)

def assetService : Service Unit where
  whole := fun r _ file => r.ending = .complete ∧ r.chunks.flatten.length = asset.size ∧
    sha256 r.chunks.flatten = asset.sha256 ∧ file = some r.chunks.flatten
  torn := fun r => r.chunks.flatten.length ≤ asset.size ∧
    ∃ e, r.ending.error = some e ∧ e.isRetryable

theorem writeChunks_fit {size : ℕ} {chunks : List Bytes} {file : Bytes}
    (h : file.length + chunks.flatten.length ≤ size) :
    writeChunks size chunks file = (.ok (), file ++ chunks.flatten) := by
  induction chunks generalizing file with
  | nil => rw [writeChunks, List.flatten_nil, List.append_nil]
  | cons chunk chunks ih =>
    rw [List.flatten_cons, List.length_append] at h
    rw [writeChunks, if_neg (by omega), ih (by rw [List.length_append]; omega),
      List.flatten_cons, List.append_assoc]

theorem writeChunks_long {size : ℕ} {chunks : List Bytes} {file : Bytes}
    (hfile : file.length ≤ size) (h : size < file.length + chunks.flatten.length) :
    ∃ n left, writeChunks size chunks file = (.error (.assetSizeMismatch size n), left) := by
  induction chunks generalizing file with
  | nil =>
    rw [List.flatten_nil, List.length_nil] at h
    omega
  | cons chunk chunks ih =>
    rw [writeChunks]
    split
    · exact ⟨_, _, rfl⟩
    · rw [List.flatten_cons, List.length_append] at h
      exact ih (by rw [List.length_append]; omega) (by rw [List.length_append]; omega)

theorem writeAssetResponse_fit {r : Response} (h : r.chunks.flatten.length ≤ asset.size) :
    writeAssetResponse sha256 asset r =
      match r.ending.error with
      | some e => (.error e, r.chunks.flatten)
      | none => (checkAsset sha256 asset r.chunks.flatten, r.chunks.flatten) := by
  have hwrite : writeChunks asset.size r.chunks [] = (.ok (), r.chunks.flatten) := by
    rw [writeChunks_fit (by rw [List.length_nil]; omega), List.nil_append]
  rewrite [writeAssetResponse, hwrite]
  rcases r.ending.error with _ | e
  · rfl
  · rfl

theorem writeAssetResponse_long {r : Response} (h : asset.size < r.chunks.flatten.length) :
    ∃ n left, writeAssetResponse sha256 asset r =
      (.error (.assetSizeMismatch asset.size n), left) := by
  obtain ⟨n, left, hwrite⟩ : ∃ n left, writeChunks asset.size r.chunks [] =
      (.error (.assetSizeMismatch asset.size n), left) := by
    apply writeChunks_long (Nat.zero_le asset.size)
    rw [List.length_nil]
    omega
  rw [writeAssetResponse, hwrite]
  exact ⟨n, left, rfl⟩

theorem checkAsset_eq_ok {file : Bytes} : checkAsset sha256 asset file = .ok () ↔
    file.length = asset.size ∧ sha256 file = asset.sha256 := by
  rw [checkAsset]
  split
  · rename_i hsize
    exact iff_of_false (by nofun) fun h => hsize h.1
  · rename_i hsize
    split
    · rename_i hdigest
      exact iff_of_false (by nofun) fun h => hdigest h.2
    · rename_i hdigest
      exact iff_of_true rfl ⟨not_not.mp hsize, not_not.mp hdigest⟩

theorem checkAsset_error {file : Bytes} {e : RepositoryError}
    (h : checkAsset sha256 asset file = .error e) : e.isRetryable = false := by
  rw [checkAsset] at h
  split at h
  · cases h
    rfl
  · split at h
    · cases h
      rfl
    · cases h

theorem assetLoop_body (r : Response) : (assetLoop sha256 asset).body r =
    ((writeAssetResponse sha256 asset r).1, some (writeAssetResponse sha256 asset r).2) := rfl

theorem serves_asset : Serves (assetService sha256 asset) (assetLoop sha256 asset) where
  whole := by
    intro r a file
    rw [assetLoop_body]
    by_cases hfit : r.chunks.flatten.length ≤ asset.size
    · rw [writeAssetResponse_fit sha256 asset hfit]
      match hend : r.ending with
      | .complete =>
        have hcheck : checkAsset sha256 asset r.chunks.flatten = .ok () ↔ _ :=
          checkAsset_eq_ok sha256 asset
        constructor
        · intro h
          simp only [Ending.error, Prod.mk.injEq] at h
          obtain ⟨hsize, hdigest⟩ := hcheck.mp h.1
          exact ⟨hend, hsize, hdigest, h.2.symm⟩
        · rintro ⟨-, hsize, hdigest, rfl⟩
          simp only [Ending.error, hcheck.mpr ⟨hsize, hdigest⟩]
      | .failed error =>
        refine iff_of_false (by nofun) fun h => ?_
        cases hend.symm.trans h.1
      | .idle =>
        refine iff_of_false (by nofun) fun h => ?_
        cases hend.symm.trans h.1
    · obtain ⟨n, left, hlong⟩ := writeAssetResponse_long sha256 asset (Nat.lt_of_not_le hfit)
      rw [hlong]
      exact iff_of_false (by nofun) fun h => hfit h.2.1.le
  torn := by
    intro r
    rw [assetLoop_body]
    by_cases hfit : r.chunks.flatten.length ≤ asset.size
    · rw [writeAssetResponse_fit sha256 asset hfit]
      rcases hend : r.ending.error with _ | e
      · constructor
        · rintro ⟨-, e, he, -⟩
          cases hend.symm.trans he
        · rintro ⟨e, file, hbody, hretry⟩
          have hcheck := congrArg Prod.fst hbody
          rw [checkAsset_error sha256 asset hcheck] at hretry
          cases hretry
      · constructor
        · rintro ⟨-, e', he', hretry⟩
          cases hend.symm.trans he'
          exact ⟨e, _, rfl, hretry⟩
        · rintro ⟨e', file, hbody, hretry⟩
          cases hbody
          exact ⟨hfit, e, hend, hretry⟩
    · obtain ⟨n, left, hlong⟩ := writeAssetResponse_long sha256 asset (Nat.lt_of_not_le hfit)
      rw [hlong]
      refine iff_of_false (fun h => hfit h.1) ?_
      rintro ⟨e, file, hbody, hretry⟩
      cases hbody
      cases hretry
  early := rfl

end Asset

section Metadata

variable (allowMissing : Bool)

def metadataService : Service (Option (List (String × Bytes) × Bytes)) where
  whole := fun r a file => r.ending = .complete ∧ r.chunks.flatten.length ≤ metadataBodyLimit ∧
    a = some (r.headers, r.chunks.flatten) ∧ file = none
  torn := fun r => (∀ n, r.contentLength = some n → n ≤ metadataBodyLimit) ∧
    r.chunks.flatten.length ≤ metadataBodyLimit ∧
      (r.ending = .idle ∨ ∃ e, r.ending = .failed e ∧ isRetryableRequestError e)

theorem readChunks_fit {limit : ℕ} {chunks : List Bytes} {body : Bytes}
    (h : body.length + chunks.flatten.length ≤ limit) :
    readChunks limit chunks body = .ok (body ++ chunks.flatten) := by
  induction chunks generalizing body with
  | nil => rw [readChunks, List.flatten_nil, List.append_nil]
  | cons chunk chunks ih =>
    rw [List.flatten_cons, List.length_append] at h
    rw [readChunks, if_neg (by omega), ih (by rw [List.length_append]; omega),
      List.flatten_cons, List.append_assoc]

theorem readChunks_long {limit : ℕ} {chunks : List Bytes} {body : Bytes}
    (hbody : body.length ≤ limit) (h : limit < body.length + chunks.flatten.length) :
    readChunks limit chunks body = .error .metadataTooLarge := by
  induction chunks generalizing body with
  | nil =>
    rw [List.flatten_nil, List.length_nil] at h
    omega
  | cons chunk chunks ih =>
    rw [readChunks]
    split
    · rfl
    · rw [List.flatten_cons, List.length_append] at h
      exact ih (by rw [List.length_append]; omega) (by rw [List.length_append]; omega)

theorem readBodyLimited_long {r : Response} {limit : ℕ}
    (h : (∃ n, r.contentLength = some n ∧ limit < n) ∨ limit < r.chunks.flatten.length) :
    readBodyLimited r limit = .error .metadataTooLarge := by
  rw [readBodyLimited]
  split
  · rfl
  · rename_i hannounced
    rcases h with ⟨n, hn, hlt⟩ | hlong
    · rw [hn] at hannounced
      exact absurd (decide_eq_true hlt) hannounced
    · rw [readChunks_long (Nat.zero_le limit) (by rw [List.length_nil]; omega)]

theorem readBodyLimited_fit {r : Response} {limit : ℕ}
    (hannounced : ∀ n, r.contentLength = some n → n ≤ limit)
    (h : r.chunks.flatten.length ≤ limit) :
    readBodyLimited r limit =
      match r.ending with
      | .complete => .ok r.chunks.flatten
      | .failed error => .error (.request error)
      | .idle => .error (.request ⟨true, false, []⟩) := by
  have hshort : ¬(r.contentLength.any fun length => limit < length) = true := by
    rcases hn : r.contentLength with _ | n
    · nofun
    · have hle := hannounced n hn
      simp only [Option.any_some, decide_eq_true_eq]
      omega
  have hread : readChunks limit r.chunks [] = .ok r.chunks.flatten := by
    rw [readChunks_fit (by rw [List.length_nil]; omega), List.nil_append]
  rewrite [readBodyLimited, if_neg hshort, hread]
  match r.ending with
  | .complete | .failed _ | .idle => rfl

theorem long_of_not_fit {r : Response} {limit : ℕ}
    (h : ¬((∀ n, r.contentLength = some n → n ≤ limit) ∧ r.chunks.flatten.length ≤ limit)) :
    (∃ n, r.contentLength = some n ∧ limit < n) ∨ limit < r.chunks.flatten.length := by
  by_contra hshort
  simp only [not_or, not_exists, not_and, not_lt] at hshort
  exact h hshort

theorem metadataLoop_body (r : Response) : (metadataLoop allowMissing).body r =
    ((readBodyLimited r metadataBodyLimit).map fun body => some (r.headers, body), none) := rfl

theorem serves_metadata : Serves metadataService (metadataLoop allowMissing) where
  whole := by
    intro r a file
    rw [metadataLoop_body]
    by_cases hfit : (∀ n, r.contentLength = some n → n ≤ metadataBodyLimit) ∧
        r.chunks.flatten.length ≤ metadataBodyLimit
    · rw [readBodyLimited_fit hfit.1 hfit.2]
      match hend : r.ending with
      | .complete =>
        constructor
        · intro h
          cases h
          exact ⟨hend, hfit.2, rfl, rfl⟩
        · rintro ⟨-, -, rfl, rfl⟩
          rfl
      | .failed error =>
        refine iff_of_false (by nofun) fun h => ?_
        cases hend.symm.trans h.1
      | .idle =>
        refine iff_of_false (by nofun) fun h => ?_
        cases hend.symm.trans h.1
    · have hlong := long_of_not_fit hfit
      rw [readBodyLimited_long hlong]
      refine iff_of_false (by nofun) fun h => hfit ⟨fun n hn => ?_, h.2.1⟩
      rw [r.announced h.1 n hn]
      exact h.2.1
  torn := by
    intro r
    rw [metadataLoop_body]
    by_cases hfit : (∀ n, r.contentLength = some n → n ≤ metadataBodyLimit) ∧
        r.chunks.flatten.length ≤ metadataBodyLimit
    · rw [readBodyLimited_fit hfit.1 hfit.2]
      match hend : r.ending with
      | .complete =>
        refine iff_of_false ?_ ?_
        · rintro ⟨-, -, hidle | ⟨e, he, -⟩⟩
          · cases hend.symm.trans hidle
          · cases hend.symm.trans he
        · rintro ⟨e, file, hbody, -⟩
          cases hbody
      | .failed error =>
        constructor
        · rintro ⟨-, -, hidle | ⟨e, he, hretry⟩⟩
          · cases hend.symm.trans hidle
          · cases hend.symm.trans he
            exact ⟨_, _, rfl, hretry⟩
        · rintro ⟨e, file, hbody, hretry⟩
          cases hbody
          exact ⟨hfit.1, hfit.2, .inr ⟨error, hend, hretry⟩⟩
      | .idle => exact iff_of_true ⟨hfit.1, hfit.2, .inl hend⟩ ⟨_, _, rfl, rfl⟩
    · rw [readBodyLimited_long (long_of_not_fit hfit)]
      refine iff_of_false (fun h => hfit ⟨h.1, h.2.1⟩) ?_
      rintro ⟨e, file, hbody, hretry⟩
      cases hbody
      cases hretry
  early := by
    rw [metadataLoop]
    dsimp only
    rw [if_neg (fun h => absurd h.2 (by decide)), if_neg (by decide)]

end Metadata

section Claims

structure AssetDownloaded (sha256 : Bytes → Text) (asset : Asset) (server : ℕ → Attempt)
    (run : Run Unit) : Prop where
  requests : run.requests ≤ maxAttempts
  ends : run.outcome ≠ .panicked
  returned : Returned (assetService sha256 asset) server run
  checked : run.outcome = .returned (.ok ()) →
    ∃ body, run.file = some body ∧ body.length = asset.size ∧ sha256 body = asset.sha256
  removed : ∀ e, run.outcome = .returned (.error e) → run.file = none

structure MetadataDownloaded (server : ℕ → Attempt)
    (run : Run (Option (List (String × Bytes) × Bytes))) : Prop where
  requests : run.requests ≤ maxAttempts
  ends : run.outcome ≠ .panicked
  returned : Returned metadataService server run

theorem assetDownloaded_iff (sha256 : Bytes → Text) (asset : Asset) (server : ℕ → Attempt)
    (file : Option Bytes) :
    AssetDownloaded sha256 asset server (downloadAsset sha256 asset server file) ↔
      Unhindered (assetService sha256 asset) server := by
  have hS := serves_asset sha256 asset
  have hearly (a : Unit) (status : ℕ) : (assetLoop sha256 asset).early status ≠ some (.ok a) := by
    nofun
  have hrun : downloadAsset sha256 asset server file =
      (assetLoop sha256 asset).run server (remaining 0) file := rfl
  rw [hrun]
  have hreturned := Loop.returned_iff hS server (fun r a f _ => hearly a) file
  obtain ⟨hrequests, hends⟩ := Loop.run_bounded hS server 0 (by decide) file
  constructor
  · exact fun h => hreturned.mp h.returned
  · intro h
    refine ⟨hrequests, hends, hreturned.mpr h, fun houtcome => ?_, fun e houtcome => ?_⟩
    · obtain ⟨j, -, -, -, hd, -⟩ := (Loop.run_ok_iff hS (hearly ()) 0 file _).mp ⟨houtcome, rfl⟩
      rcases hserver : server j with error | r
      · rw [hserver] at hd
        exact hd.elim
      · rw [hserver] at hd
        obtain ⟨-, -, hsize, hdigest, hfile⟩ := hd
        exact ⟨_, hfile, hsize, hdigest⟩
    · exact Loop.run_error hS (fun _ => rfl) (fun _ => rfl) 0 file houtcome

theorem metadataDownloaded_iff (allowMissing : Bool) (server : ℕ → Attempt) :
    MetadataDownloaded server (getMetadata allowMissing server) ↔
      Unhindered metadataService server := by
  have hS := serves_metadata allowMissing
  have hearly (r : Response) (a : Option (List (String × Bytes) × Bytes)) (file : Option Bytes)
      (hwhole : metadataService.whole r a file) (status : ℕ) :
      (metadataLoop allowMissing).early status ≠ some (.ok a) := by
    obtain ⟨-, -, rfl, -⟩ := hwhole
    rw [metadataLoop]
    dsimp only
    split
    · nofun
    · split <;> nofun
  have hrun : getMetadata allowMissing server =
      (metadataLoop allowMissing).run server (remaining 0) none := rfl
  rw [hrun]
  have hreturned := Loop.returned_iff hS server hearly none
  obtain ⟨hrequests, hends⟩ := Loop.run_bounded hS server 0 (by decide) none
  constructor
  · exact fun h => hreturned.mp h.returned
  · exact fun h => ⟨hrequests, hends, hreturned.mpr h⟩

/-- The loops return what the server delivered, exactly where no `Retry-After` on a success keeps
them from it. -/
theorem downloaded_iff (sha256 : Bytes → Text) (asset : Asset) (file : Option Bytes)
    (allowMissing : Bool) (server : ℕ → Attempt) :
    (AssetDownloaded sha256 asset server (downloadAsset sha256 asset server file) ↔
        Unhindered (assetService sha256 asset) server) ∧
      (MetadataDownloaded server (getMetadata allowMissing server) ↔
        Unhindered metadataService server) :=
  ⟨assetDownloaded_iff sha256 asset server file, metadataDownloaded_iff allowMissing server⟩

def politeServer : ℕ → Attempt := fun _ => .answered
  { status := ok
    headers := [("retry-after", [0x31, 0x32, 0x30])]
    now := 0
    contentLength := some 2
    chunks := [[0x6F, 0x6B]]
    ending := .complete
    announced := by
      rintro - n ⟨⟩
      rfl }

theorem not_downloaded_polite :
    ¬AssetDownloaded (fun _ => []) ⟨2, []⟩ politeServer
        (downloadAsset (fun _ => []) ⟨2, []⟩ politeServer none) ∧
      ¬MetadataDownloaded politeServer (getMetadata false politeServer) := by
  have hasset : (downloadAsset (fun _ => []) ⟨2, []⟩ politeServer none).outcome =
      .returned (.error (.rateLimited 120)) := by
    rfl
  have hmetadata : (getMetadata false politeServer).outcome =
      .returned (.error (.rateLimited 120)) := by
    rfl
  constructor
  · intro h
    have hok := h.returned 0 (by decide) (by nofun) () (some [0x6F, 0x6B])
      ⟨rfl, rfl, rfl, rfl, rfl⟩
    cases hasset.symm.trans hok.1
  · intro h
    have hok := h.returned 0 (by decide) (by nofun) _ none ⟨rfl, rfl, by decide, rfl, rfl⟩
    cases hmetadata.symm.trans hok.1

end Claims

end LandscapeKit.Download
