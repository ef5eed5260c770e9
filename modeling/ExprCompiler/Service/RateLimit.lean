import ExprCompiler.Service.Http

/-!
A limit on the requests of every client. Time is cut into windows; the rate of a client is what it
sent in this window, and a share of what it sent in the window before, as large as the part of that
window that is less than one window ago.
-/

namespace ExprCompiler

structure RateLimit where
  /-- The window that the counts belong to. -/
  window : Nat := 0
  current : Table Nat := []
  previous : Table Nat := []
  deriving DecidableEq, Repr

namespace RateLimit

/-- Length of a window in milliseconds. -/
def windowLength : Nat := 60000

def advance (limiter : RateLimit) (time : Nat) : RateLimit :=
  let window := time / windowLength
  if window = limiter.window then limiter
  else if window = limiter.window + 1 then ⟨window, [], limiter.current⟩
  else ⟨window, [], []⟩

/-- The rate of a client, to the nearest integer. -/
def rate (limiter : RateLimit) (time : Nat) (client : Bytes) : Nat :=
  let before := (limiter.previous.find? client).getD 0 * (windowLength - time % windowLength)
  let now := (limiter.current.find? client).getD 0 * windowLength
  (2 * (before + now) + windowLength) / (2 * windowLength)

inductive Verdict where
  /-- The request may pass, and this many more after it. -/
  | pass (remaining : Int)
  | refuse (remaining : Int)
  deriving DecidableEq, Repr

def judge (limiter : RateLimit) (limit : Int) (time : Nat) (client : Bytes) :
    Verdict × RateLimit :=
  let moved := limiter.advance time
  let used := moved.rate time client
  if limit < used + 1 then (.refuse (limit - used), moved)
  else
    let count := (moved.current.find? client).getD 0 + 1
    (.pass (limit - used - 1), { moved with current := moved.current.set client count })

def label (limit remaining : Int) (response : HttpResponse) : HttpResponse :=
  (response.withHeader "X-Ratelimit-Limit" (Text.decimal limit)).withHeader
    "X-Ratelimit-Remaining" (Text.decimal remaining)

def refusal (limit remaining : Int) : HttpResponse :=
  (label limit remaining (.plainText 429 "Too Many Requests")).withHeader "Retry-After"
    (Text.decimal (windowLength / 1000))

end RateLimit
end ExprCompiler
