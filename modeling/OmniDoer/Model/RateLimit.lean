import OmniDoer.Library.PyNumber

/-! # The rate limiter

The model of `omni_control/rate_limit.py`. Times are floats, and Python converts the seconds to
floats where it adds or subtracts them. A key without a bucket has an empty one, which is what
`setdefault` gives it. -/

namespace OmniDoer.RateLimit

open Py

structure RateLimitBucket where
  attempts : List Double := []
  lockedUntil : Double := .fin 0

structure RateLimiter where
  maxAttempts : ℕ := 5
  windowSeconds : ℤ := 60
  lockoutSeconds : ℤ := 300
  buckets : String → RateLimitBucket := fun _ => {}

inductive PermissionError where
  | locked
  | exceeded
  deriving DecidableEq

def PermissionError.message : PermissionError → String
  | .locked => "rate limit locked"
  | .exceeded => "rate limit exceeded"

namespace RateLimiter

variable (limiter : RateLimiter) (key : String) (clock : Double)

/-- `now or time.time()`. -/
def nowOrTime : Option Double → Double
  | some now => if now.eq (.fin 0) then clock else now
  | none => clock

def setBucket (bucket : RateLimitBucket) : RateLimiter :=
  { limiter with buckets := Function.update limiter.buckets key bucket }

def inWindow (now : Double) (attempts : List Double) : List Double :=
  attempts.filter fun item => (now.sub (.ofRat limiter.windowSeconds)).le item

def check (now : Option Double) : Except PermissionError Unit × RateLimiter :=
  let now := nowOrTime clock now
  let bucket := limiter.buckets key
  if now.lt bucket.lockedUntil then (.error .locked, limiter)
  else
    let attempts := limiter.inWindow now bucket.attempts
    if limiter.maxAttempts ≤ attempts.length then
      (.error .exceeded,
        limiter.setBucket key ⟨attempts, now.add (.ofRat limiter.lockoutSeconds)⟩)
    else (.ok (), limiter.setBucket key { bucket with attempts })

def recordFailure (now : Option Double) : RateLimiter :=
  let now := nowOrTime clock now
  let bucket := limiter.buckets key
  limiter.setBucket key { bucket with attempts := limiter.inWindow now bucket.attempts ++ [now] }

def checkAndRecord (now : Option Double) : Except PermissionError Unit × RateLimiter :=
  let now := some (nowOrTime clock now)
  match limiter.check key clock now with
  | (.ok _, limiter) => (.ok (), limiter.recordFailure key clock now)
  | (.error error, limiter) => (.error error, limiter)

end RateLimiter

end OmniDoer.RateLimit
