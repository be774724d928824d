import LandscapeKit.FlareRelay

/-!
Rate limiting and the per-MAC lockout of the flare server (`flare/server.rs`).
The tokens of a bucket are counted in billionths, so that with times in
nanoseconds the refill is exact.
-/

namespace LandscapeKit.Flare

def second : ℕ := 1000000000
def staleAfter : ℕ := 45 * second
def ratePerSec : ℕ := 10
def globalRatePerSec : ℕ := 200
def sessionFailPerSec : ℕ := 200
def maxAuthFails : ℕ := 5
def authWindow : ℕ := 60 * second
def authLockout : ℕ := 60 * second
def authBudget : ℕ := 25

structure RateBucket where
  tokens : ℕ
  rate : ℕ
  lastRefill : Instant
  lastSeen : Instant
deriving DecidableEq

namespace RateBucket

def new (rate : ℕ) (now : Instant) : RateBucket := ⟨rate * second, rate, now, now⟩

def allow (b : RateBucket) (now : Instant) : Bool × RateBucket :=
  let tokens := min (b.tokens + (now - b.lastRefill) * b.rate) (b.rate * second)
  if second ≤ tokens then (true, ⟨tokens - second, b.rate, now, now⟩)
  else (false, ⟨tokens, b.rate, now, now⟩)

/-- `map.entry(mac).or_insert_with(..).allow()`, for both per-MAC limiters. -/
def allowIn (rate : ℕ) (m : Assoc Mac RateBucket) (mac : Mac) (now : Instant) :
    Bool × Assoc Mac RateBucket :=
  let spent := ((m.lookup mac).getD (new rate now)).allow now
  (spent.1, m.insert mac spent.2)

def rateAllow (m : Assoc Mac RateBucket) (mac : Mac) (now : Instant) :
    Bool × Assoc Mac RateBucket :=
  allowIn ratePerSec m mac now

def failAllow (m : Assoc Mac RateBucket) (mac : Mac) (now : Instant) :
    Bool × Assoc Mac RateBucket :=
  allowIn sessionFailPerSec m mac now

end RateBucket

structure AuthGuard where
  fails : ℕ
  windowStart : Option Instant
  lockedUntil : Option Instant
  lastSeen : Instant
deriving DecidableEq

namespace AuthGuard

def default (now : Instant) : AuthGuard := ⟨0, none, none, now⟩

/-- The lockout is in force at `now`. -/
def locked (g : AuthGuard) (now : Instant) : Bool :=
  match g.lockedUntil with
  | some t => now < t
  | none => false

def blocked (g : AuthGuard) (now : Instant) : Bool × AuthGuard :=
  (g.locked now, { g with lastSeen := now })

def remaining (g : AuthGuard) (now : Instant) : Option ℕ := g.lockedUntil.map (· - now)

/-- A failure outside a running lockout opens a window or counts in the open one;
the fifth in one window starts the lockout. -/
def recordFailure (g : AuthGuard) (now : Instant) : AuthGuard :=
  if g.locked now then { g with lastSeen := now }
  else
    match g.windowStart with
    | some start =>
      if now - start ≤ authWindow then
        { fails := g.fails + 1
          windowStart := some start
          lockedUntil := if maxAuthFails ≤ g.fails + 1 then some (now + authLockout) else none
          lastSeen := now }
      else ⟨1, some now, none, now⟩
    | none => ⟨1, some now, none, now⟩

def recordSuccess (_ : AuthGuard) (now : Instant) : AuthGuard := ⟨0, none, none, now⟩

/-- The failures counted so far are still inside the window at `now`. -/
def windowOpen (g : AuthGuard) (now : Instant) : Bool :=
  match g.windowStart with
  | some start => now - start ≤ authWindow
  | none => false

end AuthGuard

end LandscapeKit.Flare
