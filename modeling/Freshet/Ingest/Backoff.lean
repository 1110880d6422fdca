/-
**Per-host backoff**: `poller.HostBackoff`, over exact rational time. The readings of the monotonic
and of the wall clock are arguments.
-/

import Freshet.Ingest.Sources
import Freshet.Lib.Dict
import Mathlib.Algebra.Order.Ring.Rat

namespace Freshet.Ingest

open Freshet.Lib

def maxBackoffS : Rat := 300

/-- `_until` and `_failures`. -/
structure HostBackoff where
  deadlines : Dict String Rat := []
  failures : Dict String Nat := []
deriving DecidableEq, Repr

/-- What `snapshot` saves: deadlines on the wall clock. -/
structure SavedBackoff where
  failures : Dict String Nat := []
  deadlines : Dict String Rat := []
deriving DecidableEq, Repr

namespace HostBackoff

variable (library : Library)

def skip (now : Rat) (url : String) (b : HostBackoff) : Bool :=
  now < (b.deadlines.get (library.hostOf url)).getD 0

/-- The wait after the `n`-th failure: the provider's own, or `2 ** min(n, 10)`, both capped. -/
def delay (n : Nat) : Option Rat → Rat
  | some seconds => if seconds > 0 then min maxBackoffS seconds else min maxBackoffS (2 ^ min n 10)
  | none => min maxBackoffS (2 ^ min n 10)

def failed (now : Rat) (url : String) (retryAfter : Option Rat) (b : HostBackoff) :
    Rat × HostBackoff :=
  let host := library.hostOf url
  let n := (b.failures.get host).getD 0 + 1
  let wait := delay n retryAfter
  (wait, { failures := b.failures.set host n, deadlines := b.deadlines.set host (now + wait) })

def succeeded (url : String) (b : HostBackoff) : HostBackoff where
  failures := b.failures.pop (library.hostOf url)
  deadlines := b.deadlines.pop (library.hostOf url)

/-- The deadlines still ahead, moved to the wall clock. -/
def snapshot (now wall : Rat) (b : HostBackoff) : SavedBackoff where
  failures := b.failures
  deadlines := b.deadlines.filterMap fun item =>
    if item.2 - now > 0 then some (item.1, wall + (item.2 - now)) else none

/-- Reapply what was saved; a deadline that has passed is left out. -/
def restore (now wall : Rat) (saved : SavedBackoff) (b : HostBackoff) : HostBackoff where
  failures := saved.failures
  deadlines := saved.deadlines.foldl (fun deadlines item =>
    let remaining := item.2 - wall
    if remaining > 0 then deadlines.set item.1 (now + remaining) else deadlines) b.deadlines

end HostBackoff

end Freshet.Ingest
