import EmailServer.Core.RateLimiter

/-! # The throttle of failed logins

`RateLimiter` keeps three maps: of connections and of failed logins by address, and of
commands by session. `recordAuthFailure` begins a window with the first failure that
comes more than ten minutes after the last window began, and `allowAuth` asks by the
same test whether the window is over. So the failures that follow an answer of
`allowAuth` are hits that the counter admits.
-/

namespace EmailServer.Core

def CMD_LIMIT : Nat := 120
def AUTH_LIMIT : Nat := 5

/-- The limiter with all of its maps. -/
structure FullRateLimiter (Session : Type) extends RateLimiter where
  cmd : Session → Option Counter
  auth : Bytes → Option Counter

namespace FullRateLimiter

variable {Session : Type}

def initial : FullRateLimiter Session := ⟨⟨fun _ => none⟩, fun _ => none, fun _ => none⟩

def allowCommand [DecidableEq Session] (now : Int) (key : Session) (r : FullRateLimiter Session) :
    Bool × FullRateLimiter Session :=
  let c := ((r.cmd key).getD {}).hit (minutes 1) now
  (decide (c.count ≤ CMD_LIMIT), { r with cmd := Function.update r.cmd key (some c) })

def recordAuthFailure (now : Int) (ip : Bytes) (r : FullRateLimiter Session) :
    FullRateLimiter Session :=
  { r with auth := Function.update r.auth ip (some (((r.auth ip).getD {}).hit (minutes 10) now)) }

def allowAuth (now : Int) (ip : Bytes) (r : FullRateLimiter Session) : Bool :=
  match r.auth ip with
  | none => true
  | some c => if now - c.window > minutes 10 then true else decide (c.count < AUTH_LIMIT)

/-- The counter of failed logins of an address, a new one if it has none. -/
def failed (ip : Bytes) (r : FullRateLimiter Session) : Counter := (r.auth ip).getD {}

variable {now : Int} {ip : Bytes} {r : FullRateLimiter Session}

theorem allowAuth_true : r.allowAuth now ip = true ↔
    now - (r.failed ip).window > minutes 10 ∨ (r.failed ip).count < AUTH_LIMIT := by
  cases counter : r.auth ip with
  | none => simp [allowAuth, failed, counter, AUTH_LIMIT]
  | some c =>
      simp only [allowAuth, failed, counter, Option.getD_some]
      by_cases expired : now - c.window > minutes 10 <;> simp [expired]

theorem allowAuth_hit (allowed : r.allowAuth now ip = true) :
    ((r.failed ip).hit (minutes 10) now).count ≤ AUTH_LIMIT := by
  have one : 0 + 1 ≤ AUTH_LIMIT := by decide
  unfold Counter.hit
  split
  · exact one
  · rename_i lasts
    rcases allowAuth_true.mp allowed with over_ | low
    · exact absurd over_ lasts
    · exact low

end FullRateLimiter

/-- A call that has returned. -/
inductive RateCall (Session : Type) where
  | allowConnection (ip : Bytes) (allowed : Bool)
  | releaseConnection (ip : Bytes)
  | allowCommand (key : Session) (allowed : Bool)
  | recordAuthFailure (ip : Bytes)
  | allowAuth (ip : Bytes) (allowed : Bool)

structure TimedRateCall (Session : Type) where
  now : Int
  call : RateCall Session

variable {Session : Type}

inductive FullRateLimiter.Step [DecidableEq Session] :
    FullRateLimiter Session → TimedRateCall Session → FullRateLimiter Session → Prop
  | allowConnection {r} (now : Int) (ip : Bytes) :
      Step r ⟨now, .allowConnection ip (r.toRateLimiter.allowConnection now ip).1⟩
        { r with toRateLimiter := (r.toRateLimiter.allowConnection now ip).2 }
  | releaseConnection {r} (now : Int) (ip : Bytes) :
      Step r ⟨now, .releaseConnection ip⟩
        { r with toRateLimiter := r.toRateLimiter.releaseConnection ip }
  | allowCommand {r} (now : Int) (key : Session) :
      Step r ⟨now, .allowCommand key (r.allowCommand now key).1⟩ (r.allowCommand now key).2
  | recordAuthFailure {r} (now : Int) (ip : Bytes) :
      Step r ⟨now, .recordAuthFailure ip⟩ (r.recordAuthFailure now ip)
  | allowAuth {r} (now : Int) (ip : Bytes) :
      Step r ⟨now, .allowAuth ip (r.allowAuth now ip)⟩ r

/-- A call with the limiters around it. -/
abbrev Throttled (Session : Type) := Taken (TimedRateCall Session) (FullRateLimiter Session)

/-- The time at which a failure of the address is recorded. -/
def TimedRateCall.failure (ip : Bytes) (l : TimedRateCall Session) : Option Int :=
  match l.call with
  | .recordAuthFailure other => if other = ip then some l.now else none
  | _ => none

/-- How a call uses the counter of an address. -/
def TimedRateCall.uses (ip : Bytes) (l : TimedRateCall Session) : Option TimedUse :=
  (l.failure ip).map fun now => ⟨now, .hit⟩

namespace Throttled

variable (ip : Bytes) (start window : Int) (x : Throttled Session)

/-- A failure of the address in the ten minutes that begin with `start`. -/
def failsWithin : Bool :=
  (x.label.failure ip).any fun now => decide (start ≤ now ∧ now ≤ start + minutes 10)

/-- A failure of the address that is counted in the window that begins at `window`. -/
def countedIn : Bool :=
  (x.label.failure ip).isSome && (x.after.auth ip).any fun c => c.window == window

/-- What the call is to the counter of the address. -/
def used : Option Used :=
  (x.label.uses ip).map fun l => ⟨l, x.before.failed ip, x.after.failed ip⟩

end Throttled

/-- The failures of an address in the order in which they are recorded. -/
def failures (ip : Bytes) (past : List (Throttled Session)) : List Int :=
  past.filterMap fun x => x.label.failure ip

/-- A failure is recorded directly after `allowAuth` has allowed the attempt, at the same
    time. -/
def Asked (past : List (Throttled Session)) (x : Throttled Session) : Prop :=
  ∀ ip, x.label.call = .recordAuthFailure ip →
    ∃ y, past.getLast? = some y ∧ y.label = ⟨x.label.now, .allowAuth ip true⟩

theorem failure_now {ip : Bytes} {time : Int} {l : TimedRateCall Session}
    (failed : l.failure ip = some time) : l = ⟨time, .recordAuthFailure ip⟩ := by
  obtain ⟨now, call⟩ := l
  cases call with
  | recordAuthFailure other =>
      simp only [TimedRateCall.failure, Option.ite_none_right_eq_some, Option.some.injEq] at failed
      obtain ⟨rfl, rfl⟩ := failed
      rfl
  | allowConnection | releaseConnection | allowCommand | allowAuth => cases failed

theorem used_hits {ip : Bytes} {past : List (Throttled Session)} {u : Used}
    (member : u ∈ past.filterMap (Throttled.used ip)) : u.label.use = .hit := by
  obtain ⟨x, -, used⟩ := List.mem_filterMap.mp member
  simp only [Throttled.used, TimedRateCall.uses, Option.map_map, Option.map_eq_some_iff] at used
  obtain ⟨_, _, rfl⟩ := used
  rfl

theorem used_ordered (ip : Bytes) {past : List (Throttled Session)}
    (ordered : past.Pairwise fun x y => x.label.now ≤ y.label.now) :
    (past.filterMap (Throttled.used ip)).Pairwise fun x y => x.label.now ≤ y.label.now := by
  refine ordered.filterMap _ fun x y earlier u first v second => ?_
  simp only [Throttled.used, TimedRateCall.uses, Option.map_map, Option.map_eq_some_iff] at first second
  obtain ⟨time, failed, rfl⟩ := first
  obtain ⟨later, failed', rfl⟩ := second
  rw [failure_now failed, failure_now failed'] at earlier
  exact earlier

section Steps

variable [DecidableEq Session] {ip : Bytes} {now : Int} {s t : FullRateLimiter Session}
  {l : TimedRateCall Session} {past : List (Throttled Session)}

theorem step_auth (step : FullRateLimiter.Step s l t) : t.auth ip =
    (l.failure ip).elim (s.auth ip) fun now => some ((s.failed ip).hit (minutes 10) now) := by
  cases step with
  | allowConnection | releaseConnection | allowCommand | allowAuth => rfl
  | recordAuthFailure now other =>
      by_cases this : other = ip
      · simp [FullRateLimiter.recordAuthFailure, TimedRateCall.failure, FullRateLimiter.failed, this]
      · simp [FullRateLimiter.recordAuthFailure, TimedRateCall.failure, this, Ne.symm this]

theorem step_failed (step : FullRateLimiter.Step s l t) : t.failed ip =
    (l.failure ip).elim (s.failed ip) ((s.failed ip).hit (minutes 10)) := by
  rw [FullRateLimiter.failed, step_auth step]
  cases l.failure ip <;> rfl

theorem step_allowAuth {allowed : Bool} (step : FullRateLimiter.Step s ⟨now, .allowAuth ip allowed⟩ t) :
    t = s ∧ allowed = s.allowAuth now ip := by
  cases step
  exact ⟨rfl, rfl⟩

theorem asked_admitted {x : Throttled Session} (step : FullRateLimiter.Step x.before x.label x.after)
    (joined : ∀ y, past.getLast? = some y →
      FullRateLimiter.Step y.before y.label y.after ∧ y.after = x.before)
    (asked : Asked past x) {time : Int} (failed : x.label.failure ip = some time) :
    (x.after.failed ip).count ≤ AUTH_LIMIT := by
  have label := failure_now failed
  obtain ⟨y, last, question⟩ := asked ip (by rw [label])
  obtain ⟨before, same⟩ := joined y last
  rw [question, label] at before
  obtain ⟨unchanged, allowed⟩ := step_allowAuth before
  rw [step_failed step, failed]
  exact FullRateLimiter.allowAuth_hit (by rw [← same, unchanged, ← allowed])

end Steps

section Runs

variable [DecidableEq Session] {s t : FullRateLimiter Session} {past : List (Throttled Session)}

theorem run_used (ip : Bytes) (run : Trace FullRateLimiter.Step .initial past s) :
    Trace (Counter.Step (minutes 10)) ((@FullRateLimiter.initial Session).failed ip)
      (past.filterMap (Throttled.used ip)) (s.failed ip) := by
  refine run.project ?_ ?_
  · intro s l t step rests
    rw [TimedRateCall.uses, Option.map_eq_none_iff] at rests
    rw [step_failed step, rests]
    rfl
  · intro s l t use step uses
    obtain ⟨now, failed, rfl⟩ := Option.map_eq_some_iff.mp uses
    rw [Counter.Step, step_failed step, failed]
    rfl

/-- The counter of an address is what its failures have made of it. -/
theorem run_auth (ip : Bytes) (run : Trace FullRateLimiter.Step .initial past s) :
    s.auth ip = (failures ip past).foldl (fun c now => some ((c.getD {}).hit (minutes 10) now)) none := by
  induction run with
  | nil => rfl
  | snoc _ step ih =>
      rw [step_auth step, FullRateLimiter.failed, ih, failures, failures, List.filterMap_append,
        List.foldl_append]
      cases failed : TimedRateCall.failure ip _ <;> simp [failed]

/-- Failures that are recorded for attempts that were allowed only are at most twice the
    limit in ten minutes. -/
theorem failures_le (ip : Bytes) (start : Int) (run : Trace FullRateLimiter.Step .initial past s)
    (ordered : past.Pairwise fun x y => x.label.now ≤ y.label.now) (asked : Along Asked [] past) :
    past.countP (Throttled.failsWithin ip start) ≤ 2 * AUTH_LIMIT := by
  have admitted : ∀ x ∈ past, ∀ time, x.label.failure ip = some time →
      (x.after.failed ip).count ≤ AUTH_LIMIT :=
    along_forall.mp ((run.joined.and asked).mono fun past x known time failed =>
      asked_admitted known.1.1 known.1.2 known.2 failed)
  have bound := @admitted_le (minutes 10) start AUTH_LIMIT _ _ _ (by decide) (run_used ip run)
    (used_ordered ip ordered)
  have none_freed : countWithin (minutes 10) start (Used.freed AUTH_LIMIT)
      (past.filterMap (Throttled.used ip)) = 0 := by
    rw [countWithin, List.countP_eq_zero]
    intro u member
    simp [Used.freed, used_hits member]
  rw [none_freed, add_zero, countWithin, List.countP_filterMap] at bound
  refine (List.countP_mono_left fun x member failing => ?_).trans bound
  cases failed : x.label.failure ip with
  | none => simp [Throttled.failsWithin, failed] at failing
  | some time =>
      have low := admitted x member time failed
      simpa [Throttled.failsWithin, Throttled.used, TimedRateCall.uses, failed, Used.within,
        Used.admitted, low] using failing

/-- The answer of `allowAuth` for an address depends on the failures of the address only. -/
theorem allowAuth_failures {ip : Bytes} {other : List (Throttled Session)}
    (run : Trace FullRateLimiter.Step .initial past s)
    (run' : Trace FullRateLimiter.Step .initial other t)
    (same : failures ip other = failures ip past) (now : Int) :
    t.allowAuth now ip = s.allowAuth now ip := by
  unfold FullRateLimiter.allowAuth
  rw [run_auth ip run', run_auth ip run, same]

theorem countedIn_used {ip : Bytes} {window : Int} {x : Throttled Session}
    (step : FullRateLimiter.Step x.before x.label x.after) :
    x.countedIn ip window = ((x.used ip).map (Used.countedIn window)).getD false := by
  have counter := @step_auth _ _ ip _ _ _ step
  unfold Throttled.countedIn Throttled.used TimedRateCall.uses Used.countedIn
  cases failed : x.label.failure ip with
  | none => rfl
  | some time =>
      rw [failed, Option.elim_some] at counter
      simp [FullRateLimiter.failed, counter]

/-- As long as a window lasts in which the limit was reached, no attempt is allowed. -/
theorem window_closed {ip : Bytes} {window now : Int}
    (run : Trace FullRateLimiter.Step .initial past s)
    (earlier : ∀ x ∈ past, x.label.now ≤ now)
    (reached : AUTH_LIMIT ≤ past.countP (Throttled.countedIn ip window))
    (lasts : now ≤ window + minutes 10) : s.allowAuth now ip = false := by
  have counted : past.countP (Throttled.countedIn ip window) =
      (past.filterMap (Throttled.used ip)).countP (Used.countedIn window) := by
    rw [List.countP_filterMap]
    exact List.countP_congr fun x member => by rw [countedIn_used (run.steps x member)]
  rw [counted] at reached
  have limit : 0 < AUTH_LIMIT := by decide
  rw [Bool.eq_false_iff, Ne, FullRateLimiter.allowAuth_true]
  rcases hits_counted (run_used ip run) (fun u member => used_hits member) (by decide)
    (limit.trans_le reached) with ⟨same, all⟩ | ⟨over_, u, member, begun⟩
  · omega
  · obtain ⟨x, inRun, used⟩ := List.mem_filterMap.mp member
    have here : u.label.now ≤ now := by
      simp only [Throttled.used, TimedRateCall.uses, Option.map_map, Option.map_eq_some_iff] at used
      obtain ⟨time, failed, rfl⟩ := used
      have := earlier x inRun
      rwa [failure_now failed] at this
    omega

/-- In every run in which a failure is recorded directly after an answer of `allowAuth`:
    at most twice the limit of failures of an address come in ten minutes, calls for other
    addresses or other counters change no answer for the address, and a window in which the
    limit was reached allows no further attempt. -/
theorem auth_throttled (run : Trace FullRateLimiter.Step .initial past s)
    (ordered : past.Pairwise fun x y => x.label.now ≤ y.label.now) (asked : Along Asked [] past) :
    (∀ ip start, past.countP (Throttled.failsWithin ip start) ≤ 2 * AUTH_LIMIT) ∧
    (∀ (ip : Bytes) (other : List (Throttled Session)) t,
      Trace FullRateLimiter.Step .initial other t → failures ip other = failures ip past →
      ∀ now, t.allowAuth now ip = s.allowAuth now ip) ∧
    Along (fun past x => ∀ ip window allowed, x.label.call = .allowAuth ip allowed →
      AUTH_LIMIT ≤ past.countP (Throttled.countedIn ip window) →
      x.label.now ≤ window + minutes 10 → allowed = false) [] past := by
  refine ⟨fun ip start => failures_le ip start run ordered asked,
    fun ip other t run' same => allowAuth_failures run run' same, ?_⟩
  refine (run.earlier.and (along_pairwise ordered)).mono fun past x known ip window allowed => ?_
  intro call reached lasts
  obtain ⟨⟨step, before⟩, -, earlier⟩ := known
  obtain ⟨⟨now, call'⟩, s, t⟩ := x
  obtain rfl : call' = .allowAuth ip allowed := call
  rw [(step_allowAuth step).2]
  exact window_closed before earlier reached lasts

end Runs

/-! ## Guessing -/

def guesser : Bytes := ascii "192.0.2.1"

/-- The attempts are allowed until the limit is reached, and nine minutes later none is. -/
theorem auth_throttled_refused : ∃ past s,
    Trace (@FullRateLimiter.Step Nat _) .initial past s ∧
    past.countP (Throttled.failsWithin guesser (minutes 60)) = AUTH_LIMIT ∧
    past.countP (Throttled.failsWithin guesser (minutes 60)) ≤ 2 * AUTH_LIMIT ∧
    s.allowAuth (minutes 69) guesser = false ∧ s.allowAuth (minutes 71) guesser = true := by
  have empty : Trace (@FullRateLimiter.Step Nat _) .initial [] .initial := .nil
  have first := empty.snoc (.allowAuth (minutes 60) guesser) |>.snoc (.recordAuthFailure (minutes 60) guesser)
  have second := first.snoc (.allowAuth (minutes 60) guesser) |>.snoc (.recordAuthFailure (minutes 60) guesser)
  have third := second.snoc (.allowAuth (minutes 60) guesser) |>.snoc (.recordAuthFailure (minutes 60) guesser)
  have fourth := third.snoc (.allowAuth (minutes 60) guesser) |>.snoc (.recordAuthFailure (minutes 60) guesser)
  have fifth := fourth.snoc (.allowAuth (minutes 60) guesser) |>.snoc (.recordAuthFailure (minutes 60) guesser)
  have run := fifth.snoc (.allowAuth (minutes 69) guesser)
  obtain ⟨bound, -, closed⟩ := auth_throttled run (by decide) (by
    refine ⟨?_, ?_, ?_, ?_, ?_, ?_, ?_, ?_, ?_, ?_, ?_, trivial⟩
    all_goals
      intro ip call
      cases call <;> exact ⟨_, rfl, rfl⟩)
  have refused := (along_concat.mp closed).2 guesser (minutes 60) _ rfl (by decide) (by decide)
  exact ⟨_, _, run, by decide, bound guesser (minutes 60), refused, by decide⟩

end EmailServer.Core
