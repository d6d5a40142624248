import Mathlib.Logic.Function.Basic
import EmailServer.Core.ConnectionManager
import EmailServer.Library.FixedWindow

/-! # The rate limiter

`RateLimiter` counts the connections of each address in windows of a minute. The
counters of commands and of failed logins are left out.
-/

namespace EmailServer.Core

def CONN_LIMIT : Nat := 30

structure RateLimiter where
  conn : Bytes → Option Counter

namespace RateLimiter

/-- The counter of an address, a new one if it has none. -/
def counter (ip : Bytes) (r : RateLimiter) : Counter := (r.conn ip).getD {}

def allowConnection (now : Int) (ip : Bytes) (r : RateLimiter) : Bool × RateLimiter :=
  let c := (r.counter ip).hit (minutes 1) now
  (decide (c.count ≤ CONN_LIMIT), { r with conn := Function.update r.conn ip (some c) })

def releaseConnection (ip : Bytes) (r : RateLimiter) : RateLimiter :=
  match r.conn ip with
  | none => r
  | some c => { r with conn := Function.update r.conn ip (some c.giveBack) }

variable {now : Int} {ip other : Bytes} {r : RateLimiter}

theorem allowConnection_counter : (r.allowConnection now ip).2.counter other =
    if other = ip then (r.counter ip).hit (minutes 1) now else r.counter other := by
  by_cases this : other = ip <;> simp [allowConnection, counter, this]

theorem releaseConnection_counter : (r.releaseConnection ip).counter other =
    if other = ip then (r.counter ip).giveBack else r.counter other := by
  unfold releaseConnection
  split
  · rename_i absent
    by_cases this : other = ip
    · simp [this, counter, absent, Counter.giveBack]
    · simp [this]
  · rename_i c found
    by_cases this : other = ip <;> simp [counter, found, this]

end RateLimiter

end EmailServer.Core
