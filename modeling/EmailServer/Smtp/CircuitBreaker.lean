import EmailServer.Core.ConnectionManager
import EmailServer.Library.Trace

/-! # The circuit breaker

`SmtpServer` counts the sessions that failed. The accept loop clears the count when it
comes more than a minute after the last failure, and turns clients away when the count
has reached the threshold. Every failure begins the minute anew, so the count goes on as
long as no turn of the loop comes in a quiet minute.

The loop and the session threads call the three functions in any order. A call of
`accept` that blocks is time that passes between two calls.
-/

namespace EmailServer.Smtp

open EmailServer.Core

/-- Failures per minute. -/
def FAILURE_THRESHOLD : Nat := 10

structure CircuitBreaker where
  recentFailures : Nat
  lastFailureTime : Int

/-- `std::chrono::duration_cast` from nanoseconds to milliseconds. -/
def milliseconds (n : Int) : Int := n.tdiv 1000000

namespace CircuitBreaker

/-- The constructor of `SmtpServer`. -/
def start (now : Int) : CircuitBreaker := ⟨0, now⟩

def isCircuitBreakerTripped (now : Int) (b : CircuitBreaker) : Bool :=
  if milliseconds (now - b.lastFailureTime) > 60000 then false
  else decide (b.recentFailures ≥ FAILURE_THRESHOLD)

def resetCircuitBreakerIfExpired (now : Int) (b : CircuitBreaker) : CircuitBreaker :=
  if milliseconds (now - b.lastFailureTime) > 60000 then { b with recentFailures := 0 } else b

def recordSessionFailure (now : Int) (b : CircuitBreaker) : CircuitBreaker :=
  { recentFailures := b.recentFailures + 1, lastFailureTime := now }

end CircuitBreaker

/-- A call that has returned. -/
inductive BreakerCall where
  | recordSessionFailure
  | resetCircuitBreakerIfExpired
  | isCircuitBreakerTripped (tripped : Bool)
  deriving DecidableEq

structure TimedBreakerCall where
  now : Int
  call : BreakerCall

inductive CircuitBreaker.Step : CircuitBreaker → TimedBreakerCall → CircuitBreaker → Prop
  | recordSessionFailure {b} (now : Int) :
      Step b ⟨now, .recordSessionFailure⟩ (b.recordSessionFailure now)
  | resetCircuitBreakerIfExpired {b} (now : Int) :
      Step b ⟨now, .resetCircuitBreakerIfExpired⟩ (b.resetCircuitBreakerIfExpired now)
  | isCircuitBreakerTripped {b} (now : Int) :
      Step b ⟨now, .isCircuitBreakerTripped (b.isCircuitBreakerTripped now)⟩ b

/-- A call with the breaker around it. -/
abbrev Broken := Taken TimedBreakerCall CircuitBreaker

namespace Broken

variable (now : Int) (x : Broken)

def fails : Bool := x.label.call = .recordSessionFailure

def failure : Option Int := if x.fails then some x.label.now else none

/-- A failure in the minute before `now`. -/
def failsBefore : Bool :=
  x.fails && decide (now - minutes 1 ≤ x.label.now ∧ x.label.now ≤ now)

end Broken

/-- More than a minute, in whole milliseconds, has passed since the last failure. -/
def Quiet (past : List Broken) (now : Int) : Prop :=
  ∃ last, latest Broken.failure past = some last ∧ milliseconds (now - last) > 60000

/-- The call is not a turn of the loop in a quiet minute. -/
def Unquiet (past : List Broken) (x : Broken) : Prop :=
  x.label.call = .resetCircuitBreakerIfExpired → ¬ Quiet past x.label.now

/-- The loop trips on failures of the last minute only. -/
def Burst (past : List Broken) (x : Broken) : Prop :=
  x.label.call = .isCircuitBreakerTripped true →
    FAILURE_THRESHOLD ≤ past.countP (Broken.failsBefore x.label.now)

/-- When the loop asks and the tenth-last failure is more than a minute old, a turn of the
    loop since that failure, or this one, has come in a quiet minute. -/
def Cleared (past : List Broken) (x : Broken) : Prop :=
  ∀ tripped, x.label.call = .isCircuitBreakerTripped tripped → ¬ Quiet past x.label.now →
    ∀ y, Followed Broken.fails Unquiet (FAILURE_THRESHOLD - 1) past y →
      x.label.now - minutes 1 ≤ y.label.now

section Steps

variable {start : Int} {past : List Broken} {b c : CircuitBreaker} {l : TimedBreakerCall}

/-- What the breaker knows of the calls so far: when the last failure was, and how many have
    come since a turn of the loop in a quiet minute. -/
structure Recalls (start : Int) (past : List Broken) (b : CircuitBreaker) : Prop where
  last : b.lastFailureTime = (latest Broken.failure past).getD start
  recent : ∀ n, n < b.recentFailures ↔ ∃ y, Followed Broken.fails Unquiet n past y

theorem quiet_iff (recalls : Recalls start past b) (counted : 0 < b.recentFailures) (now : Int) :
    Quiet past now ↔ milliseconds (now - b.lastFailureTime) > 60000 := by
  obtain ⟨y, followed⟩ := (recalls.recent 0).mp counted
  obtain ⟨member, fails⟩ := followed.mem
  cases last : latest Broken.failure past with
  | none =>
      have never := latest_none.mp last y member
      simp [Broken.failure, fails] at never
  | some time => simp [Quiet, last, recalls.last]

theorem step_recalls (step : CircuitBreaker.Step b l c) (recalls : Recalls start past b) :
    Recalls start (past ++ [⟨l, b, c⟩]) c := by
  cases step with
  | recordSessionFailure now =>
      refine ⟨by simp [CircuitBreaker.recordSessionFailure, Broken.failure, Broken.fails], fun n => ?_⟩
      cases n with
      | zero => simp [CircuitBreaker.recordSessionFailure, Followed.concat, Broken.fails]
      | succ n =>
          have before := recalls.recent n
          simpa [CircuitBreaker.recordSessionFailure, Followed.concat, Broken.fails, Unquiet] using before
  | resetCircuitBreakerIfExpired now =>
      have quiet := fun counted => quiet_iff recalls counted now
      unfold CircuitBreaker.resetCircuitBreakerIfExpired
      split
      · rename_i expired
        refine ⟨by simp [recalls.last, Broken.failure, Broken.fails], fun n => ?_⟩
        have broken : ∀ y, Followed Broken.fails Unquiet n past y → Quiet past now := by
          intro y followed
          have counted := (recalls.recent n).mpr ⟨y, followed⟩
          exact (quiet (by omega)).mpr expired
        simpa [Followed.concat, Broken.fails, Unquiet] using fun unquiet y followed =>
          unquiet (broken y followed)
      · rename_i lasts
        refine ⟨by simp [recalls.last, Broken.failure, Broken.fails], fun n => ?_⟩
        have kept : ∀ y, Followed Broken.fails Unquiet n past y → ¬ Quiet past now := by
          intro y followed
          have counted := (recalls.recent n).mpr ⟨y, followed⟩
          rwa [quiet (by omega)]
        simp only [Followed.concat, Broken.fails, Unquiet]
        simpa [recalls.recent n] using kept
  | isCircuitBreakerTripped now =>
      refine ⟨by simp [recalls.last, Broken.failure, Broken.fails], fun n => ?_⟩
      simpa [Followed.concat, Broken.fails, Unquiet] using recalls.recent n

/-- The breaker is tripped when the minute of the last failure is not over and the threshold
    has been reached since a turn of the loop in a quiet minute. -/
theorem tripped_iff (recalls : Recalls start past b) (now : Int) :
    b.isCircuitBreakerTripped now = true ↔
      ¬ Quiet past now ∧ ∃ y, Followed Broken.fails Unquiet (FAILURE_THRESHOLD - 1) past y := by
  have reached : FAILURE_THRESHOLD ≤ b.recentFailures ↔
      ∃ y, Followed Broken.fails Unquiet (FAILURE_THRESHOLD - 1) past y :=
    recalls.recent (FAILURE_THRESHOLD - 1)
  rw [← reached]
  have quiet := fun counted => quiet_iff recalls counted now
  have positive : 0 < FAILURE_THRESHOLD := by decide
  unfold CircuitBreaker.isCircuitBreakerTripped
  by_cases many : FAILURE_THRESHOLD ≤ b.recentFailures
  · rw [quiet (by omega)]
    by_cases expired : milliseconds (now - b.lastFailureTime) > 60000 <;> simp [expired, many]
  · simp [many]

/-- Of failures in the order of time, more than `n` lie in the minute before `now` just when
    the one that `n` have followed does. -/
theorem failsBefore_iff {Q : List Broken → Broken → Prop} {n : Nat} {now : Int} {y : Broken}
    (ordered : past.Pairwise fun x y => x.label.now ≤ y.label.now)
    (earlier : ∀ x ∈ past, x.label.now ≤ now) (followed : Followed Broken.fails Q n past y) :
    n < past.countP (Broken.failsBefore now) ↔ now - minutes 1 ≤ y.label.now := by
  obtain ⟨before, later, rfl, fails, counted, -⟩ := followed
  obtain ⟨-, rest, ordered⟩ := List.pairwise_append.mp ordered
  obtain ⟨after, -⟩ := List.pairwise_cons.mp rest
  rw [List.countP_append, List.countP_cons]
  constructor
  · intro many
    by_contra old
    have nothing : before.countP (Broken.failsBefore now) = 0 := by
      rw [List.countP_eq_zero]
      intro x member
      have := ordered x member y (.head _)
      simp only [Broken.failsBefore, Bool.and_eq_true, decide_eq_true_eq]
      omega
    have few : later.countP (Broken.failsBefore now) ≤ later.countP Broken.fails :=
      List.countP_mono_left fun x _ failing => (Bool.and_eq_true_iff.mp failing).1
    have last : ¬ Broken.failsBefore now y = true := by
      simp only [Broken.failsBefore, Bool.and_eq_true, decide_eq_true_eq]
      omega
    rw [nothing, if_neg last] at many
    omega
  · intro fresh
    have all : later.countP (Broken.failsBefore now) = later.countP Broken.fails := by
      refine List.countP_congr fun x member => ?_
      have first := after x member
      have last := earlier x (by simp [member])
      have inside : now - minutes 1 ≤ x.label.now ∧ x.label.now ≤ now := by omega
      simp [Broken.failsBefore, inside]
    have here : Broken.failsBefore now y = true := by
      simp only [Broken.failsBefore, fails, Bool.true_and, decide_eq_true_eq]
      exact ⟨fresh, earlier y (by simp)⟩
    rw [all, counted, if_pos here]
    omega

theorem burst_iff (step : CircuitBreaker.Step b l c) (recalls : Recalls start past b)
    (ordered : past.Pairwise fun x y => x.label.now ≤ y.label.now)
    (earlier : ∀ x ∈ past, x.label.now ≤ l.now) :
    Burst past ⟨l, b, c⟩ ↔ Cleared past ⟨l, b, c⟩ := by
  cases step with
  | recordSessionFailure | resetCircuitBreakerIfExpired =>
      exact ⟨fun _ _ asked => (nomatch asked), fun _ asked => nomatch asked⟩
  | isCircuitBreakerTripped now =>
      have tripped := tripped_iff recalls now
      constructor
      · rintro burst answer - lasts y followed
        have enough := burst (by rw [tripped.mpr ⟨lasts, y, followed⟩])
        exact (failsBefore_iff ordered earlier followed).mp enough
      · intro cleared asked
        simp only [BreakerCall.isCircuitBreakerTripped.injEq] at asked
        obtain ⟨lasts, y, followed⟩ := tripped.mp asked
        exact (failsBefore_iff ordered earlier followed).mpr (cleared _ rfl lasts y followed)

end Steps

/-- In every run the loop trips on failures of the last minute only, if and only if, each time
    it asks, the tenth-last failure is of the last minute or the count was cleared since. -/
theorem trips_on_burst_iff {start : Int} {past : List Broken} {b : CircuitBreaker}
    (run : Trace CircuitBreaker.Step (.start start) past b)
    (ordered : past.Pairwise fun x y => x.label.now ≤ y.label.now) :
    Along Burst [] past ↔ Along Cleared [] past := by
  have recalls : Along (fun past x => CircuitBreaker.Step x.before x.label x.after ∧
      Recalls start past x.before ∧ Recalls start (past ++ [x]) x.after) [] past :=
    (run.always ⟨rfl, by simp [CircuitBreaker.start]⟩ fun _ _ _ _ before step =>
      step_recalls step before).2
  exact ((recalls.and (along_pairwise ordered)).mono fun past x known =>
    burst_iff known.1.1 known.1.2.1 known.2.1 known.2.2).congr

/-! ## A failure every second -/

theorem countP_failsBefore (now : Int) (past : List Broken) :
    past.countP (Broken.failsBefore now) = (past.map Taken.label).countP fun l =>
      decide (l.call = .recordSessionFailure) && decide (now - minutes 1 ≤ l.now ∧ l.now ≤ now) := by
  rw [List.countP_map]
  rfl

/-- A session fails in each of `n` seconds. -/
def burst (n : Nat) : List TimedBreakerCall :=
  (List.range n).map fun i => ⟨1000000000 * (i + 1), .recordSessionFailure⟩

theorem burst_run (n : Nat) : ∃ past,
    Trace CircuitBreaker.Step (.start 0) past ⟨n, 1000000000 * n⟩ ∧ past.map Taken.label = burst n := by
  induction n with
  | zero => exact ⟨[], .nil, rfl⟩
  | succ n ih =>
      obtain ⟨past, run, calls⟩ := ih
      refine ⟨_, run.snoc (.recordSessionFailure (1000000000 * (n + 1))), ?_⟩
      simp [calls, burst, List.range_succ]

/-- Ten failures in ten seconds trip the breaker, twenty seconds later. -/
theorem trips_on_burst_iff_ten : ∃ past b, Trace CircuitBreaker.Step (.start 0) past b ∧
    past.map Taken.label = burst 10 ++ [⟨30000000000, .resetCircuitBreakerIfExpired⟩,
      ⟨30000000000, .isCircuitBreakerTripped true⟩] ∧ Along Burst [] past ∧ Along Cleared [] past := by
  obtain ⟨past, run, calls⟩ := burst_run 10
  let failed : CircuitBreaker := ⟨10, 10000000000⟩
  let reset : Broken := ⟨⟨30000000000, .resetCircuitBreakerIfExpired⟩, failed, failed⟩
  let asked : Broken := ⟨⟨30000000000, .isCircuitBreakerTripped true⟩, failed, failed⟩
  have keeps : failed.Step reset.label failed := .resetCircuitBreakerIfExpired 30000000000
  have trips : failed.Step asked.label failed := .isCircuitBreakerTripped 30000000000
  have whole : Trace CircuitBreaker.Step (.start 0) (past ++ [reset] ++ [asked]) failed :=
    (run.snoc keeps).snoc trips
  have labels : (past ++ [reset] ++ [asked]).map Taken.label = burst 10 ++
      [⟨30000000000, .resetCircuitBreakerIfExpired⟩,
        ⟨30000000000, .isCircuitBreakerTripped true⟩] := by
    simp [calls, reset, asked]
  have ordered : (past ++ [reset] ++ [asked]).Pairwise fun x y => x.label.now ≤ y.label.now := by
    have times : ((past ++ [reset] ++ [asked]).map Taken.label).Pairwise fun k l => k.now ≤ l.now := by
      rw [labels]
      decide
    rwa [List.pairwise_map] at times
  refine ⟨_, _, whole, labels, ?burst, (trips_on_burst_iff whole ordered).mp ?burst⟩
  refine along_concat.mpr ⟨(along_forall.mpr fun x member => ?_).mono fun _ x
    (never : x.label.call ≠ .isCircuitBreakerTripped true) trips => absurd trips never, fun _ => ?_⟩
  · have early : ∀ l ∈ burst 10 ++ [⟨30000000000, .resetCircuitBreakerIfExpired⟩],
        l.call ≠ .isCircuitBreakerTripped true := by decide
    have label : x.label ∈ (past ++ [reset]).map Taken.label := List.mem_map_of_mem member
    rw [List.map_append, calls] at label
    exact early x.label label
  · have count : (past ++ [reset]).countP (Broken.failsBefore 30000000000) = 10 := by
      rw [countP_failsBefore, List.map_append, calls]
      decide
    exact count.ge

/-! ## A failure every fifty seconds -/

/-- Turn after turn, the loop asks, and fifty seconds later the session fails that it has
    started. -/
def spread (turns : Nat) : List TimedBreakerCall :=
  (List.range turns).flatMap fun i =>
    [⟨50000000000 * i, .resetCircuitBreakerIfExpired⟩,
      ⟨50000000000 * i, .isCircuitBreakerTripped (decide (FAILURE_THRESHOLD ≤ i))⟩,
      ⟨50000000000 * (i + 1), .recordSessionFailure⟩]

theorem tripped_now (n : Nat) (now : Int) :
    CircuitBreaker.isCircuitBreakerTripped now ⟨n, now⟩ = decide (FAILURE_THRESHOLD ≤ n) := by
  simp [CircuitBreaker.isCircuitBreakerTripped, milliseconds]

theorem reset_now (n : Nat) (now : Int) :
    CircuitBreaker.resetCircuitBreakerIfExpired now ⟨n, now⟩ = ⟨n, now⟩ := by
  simp [CircuitBreaker.resetCircuitBreakerIfExpired, milliseconds]

theorem spread_run (turns : Nat) : ∃ past,
    Trace CircuitBreaker.Step (.start 0) past ⟨turns, 50000000000 * turns⟩ ∧
    past.map Taken.label =
      spread turns ++ [⟨50000000000 * turns, .resetCircuitBreakerIfExpired⟩] := by
  induction turns with
  | zero =>
      have empty : Trace CircuitBreaker.Step (.start 0) [] (.start 0) := .nil
      exact ⟨_, empty.snoc (.resetCircuitBreakerIfExpired 0), rfl⟩
  | succ turns ih =>
      obtain ⟨past, run, calls⟩ := ih
      have asked := run.snoc (.isCircuitBreakerTripped (50000000000 * turns))
      have failed := asked.snoc (.recordSessionFailure (50000000000 * (turns + 1)))
      have reset := failed.snoc (.resetCircuitBreakerIfExpired (50000000000 * (turns + 1)))
      unfold CircuitBreaker.recordSessionFailure at reset
      rw [reset_now] at reset
      refine ⟨_, reset, ?_⟩
      simp [calls, spread, List.range_succ, tripped_now]

/-- Ten failures in seven and a half minutes trip the breaker, two of them in the last minute. -/
theorem spread_trips : ∃ past b, Trace CircuitBreaker.Step (.start 0) past b ∧
    past.map Taken.label = spread 10 ++ [⟨500000000000, .resetCircuitBreakerIfExpired⟩,
      ⟨500000000000, .isCircuitBreakerTripped true⟩] ∧
    past.Pairwise (fun x y => x.label.now ≤ y.label.now) ∧ ¬ Along Burst [] past := by
  obtain ⟨past, run, calls⟩ := spread_run 10
  have now : (50000000000 : Int) * (10 : Nat) = 500000000000 := rfl
  rw [now] at run calls
  have asked := run.snoc (.isCircuitBreakerTripped 500000000000)
  have trips : CircuitBreaker.isCircuitBreakerTripped 500000000000 ⟨10, 500000000000⟩ = true :=
    tripped_now 10 _
  rw [trips] at asked
  let last : Broken := ⟨⟨500000000000, .isCircuitBreakerTripped true⟩, ⟨10, 500000000000⟩,
    ⟨10, 500000000000⟩⟩
  have all : (past ++ [last]).map Taken.label = spread 10 ++
      [⟨500000000000, .resetCircuitBreakerIfExpired⟩,
        ⟨500000000000, .isCircuitBreakerTripped true⟩] := by
    simp [calls, last]
  refine ⟨_, _, asked, all, ?_, fun along => ?_⟩
  · have ordered : ((past ++ [last]).map Taken.label).Pairwise fun k l => k.now ≤ l.now := by
      rw [all]
      decide
    rwa [List.pairwise_map] at ordered
  · have enough := (along_concat.mp along).2 rfl
    have few : past.countP (Broken.failsBefore 500000000000) = 2 := by
      rw [countP_failsBefore, calls]
      decide
    rw [List.nil_append, few] at enough
    exact absurd enough (by decide)

end EmailServer.Smtp
