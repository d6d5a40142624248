import EmailServer.Library.Expiring
import EmailServer.Auth.DistributedAuthManager

/-! # Runs of the distributed auth manager

A run is a sequence of calls at nondecreasing times on a manager that was
initialized once. A key of the local cache together with its expiry is an entry
with a lifetime, and every call either leaves it alone or touches it.
-/

namespace EmailServer.Auth

namespace DistributedAuthManager

/-- A call that has returned. -/
structure Event where
  clock : Clock
  call : Call
  reply : Reply
  deriving DecidableEq

def Event.time (e : Event) : Int := e.clock.steady

/-- `events` took the manager from `s` to `t`. -/
inductive Run (s : DistributedAuthManager) : List Event → DistributedAuthManager → Prop
  | start : Run s [] s
  | call {past t} (clock : Clock) (call : Call) : Run s past t →
      (∀ e ∈ past, e.time ≤ clock.steady) →
      Run s (past ++ [⟨clock, call, (t.perform clock call).1⟩]) (t.perform clock call).2

theorem Run.ordered {s t : DistributedAuthManager} {past : List Event} (run : Run s past t) :
    past.Pairwise fun earlier later => earlier.time ≤ later.time := by
  induction run with
  | start => exact .nil
  | call clock call _ later ih => exact pairwise_concat ih later

/-- Make calls after those that have returned already. -/
def runCalls (returned : List Event) (t : DistributedAuthManager) :
    List (Clock × Call) → List Event × DistributedAuthManager
  | [] => (returned, t)
  | (clock, call) :: rest =>
      let answer := t.perform clock call
      runCalls (returned ++ [⟨clock, call, answer.1⟩]) answer.2 rest

theorem Run.calls {s t : DistributedAuthManager} {past : List Event} (run : Run s past t)
    {calls : List (Clock × Call)} (later : ∀ e ∈ past, ∀ c ∈ calls, e.time ≤ c.1.steady)
    (ordered : calls.Pairwise fun first second => first.1.steady ≤ second.1.steady) :
    Run s (runCalls past t calls).1 (runCalls past t calls).2 := by
  induction calls generalizing past t with
  | nil => exact run
  | cons c rest ih =>
      obtain ⟨clock, call⟩ := c
      obtain ⟨first, others⟩ := List.pairwise_cons.mp ordered
      apply ih (run.call clock call fun e member => later e member _ (.head _))
      · intro e member c inRest
        rcases List.mem_append.mp member with old | new
        · exact later e old c (.tail _ inRest)
        · rw [List.mem_singleton.mp new]
          exact first c inRest
      · exact others

/-! ## What a run does to an entry -/

/-- The touch of an entry by an event, where `change` says what a call did to it
    and every sweep comes by. -/
def Event.touchBy {γ : Type} (change : Event → Option γ) (touch : γ → Touch Bytes) (e : Event) :
    Option (Int × Touch Bytes) :=
  if e.call = .cleanupExpiredCache then some (e.time, .sweep)
  else (change e).map fun changed => (e.time, touch changed)

/-- A change leaves `entry` behind. -/
structure Writes {γ : Type} (change : Event → Option γ) (touch : γ → Touch Bytes)
    (entry : γ → Entry Bytes) : Prop where
  written : ∀ e changed, change e = some changed →
    (touch changed).writes e.time = some (entry changed)
  living : ∀ changed value ttl, touch changed = .put value ttl → 0 ≤ ttl
  sweepless : ∀ e, e.call = .cleanupExpiredCache → change e = none

namespace Writes

variable {γ : Type} {change : Event → Option γ} {touch : γ → Touch Bytes}
  {entry : γ → Entry Bytes} {past : List Event}

theorem touchBy_time {e : Event} {touched : Int × Touch Bytes}
    (touches : e.touchBy change touch = some touched) : touched.1 = e.time := by
  unfold Event.touchBy at touches
  split at touches
  · cases touches
    rfl
  · obtain ⟨changed, -, rfl⟩ := Option.map_eq_some_iff.mp touches
    rfl

theorem last {now : Int} (last : ∀ e ∈ past, e.time ≤ now) :
    ∀ touched ∈ past.filterMap (Event.touchBy change touch), touched.1 ≤ now := by
  intro touched member
  obtain ⟨e, inPast, touches⟩ := List.mem_filterMap.mp member
  rw [touchBy_time touches]
  exact last e inPast

variable (writes : Writes change touch entry)
include writes

theorem orderly {s t : DistributedAuthManager} (run : Run s past t) :
    Entry.Orderly (past.filterMap (Event.touchBy change touch)) where
  times := by
    apply run.ordered.filterMap
    intro earlier later before touched touches other touchesOther
    rw [touchBy_time touches, touchBy_time touchesOther]
    exact before
  lifetimes touched member value ttl put := by
    obtain ⟨e, _, touches⟩ := List.mem_filterMap.mp member
    unfold Event.touchBy at touches
    split at touches
    · cases touches
      cases put
    · obtain ⟨changed, _, rfl⟩ := Option.map_eq_some_iff.mp touches
      exact writes.living changed value ttl put

/-- What was last written is what the last change left behind. -/
theorem last_written :
    Entry.written (past.filterMap (Event.touchBy change touch)) =
      (latest change past).map entry := by
  rw [Entry.written, latest_filterMap, ← latest_map]
  congr 1
  funext e
  unfold Event.touchBy
  split
  · rename_i sweep
    rw [writes.sweepless e sweep]
    rfl
  · cases changed : change e with
    | none => rfl
    | some changed' => exact writes.written e changed' changed

theorem swept {expiry : Int} :
    Entry.Swept (past.filterMap (Event.touchBy change touch)) expiry ↔
      ∃ e ∈ past, e.call = .cleanupExpiredCache ∧ expiry < e.time := by
  constructor
  · intro ⟨touched, member, sweeps, late⟩
    obtain ⟨e, inPast, touches⟩ := List.mem_filterMap.mp member
    rw [touchBy_time touches] at late
    refine ⟨e, inPast, ?_, late⟩
    by_contra other
    rw [Event.touchBy, if_neg other] at touches
    obtain ⟨changed, changes, rfl⟩ := Option.map_eq_some_iff.mp touches
    have written := writes.written e changed changes
    rw [show touch changed = .sweep from sweeps] at written
    cases written
  · intro ⟨e, inPast, sweep, late⟩
    refine ⟨(e.time, .sweep), ?_, rfl, late⟩
    exact List.mem_filterMap.mpr ⟨e, inPast, by rw [Event.touchBy, if_pos sweep]⟩

end Writes

/-! ## Keys -/

section Keys

variable {s : DistributedAuthManager} {a b : Bytes}

theorem clusterKey_injective (same : s.clusterKey a = s.clusterKey b) : a = b :=
  List.append_cancel_left same

theorem userKey_injective (same : s.userKey a = s.userKey b) : a = b :=
  List.append_cancel_left (clusterKey_injective same)

theorem sessionKey_injective (same : s.sessionKey a = s.sessionKey b) : a = b :=
  List.append_cancel_left (clusterKey_injective same)

theorem userKey_ne_sessionKey : s.userKey a ≠ s.sessionKey b := by
  intro same
  have suffix := clusterKey_injective same
  simp [ascii] at suffix

end Keys

/-! ## One key of the local cache -/

/-- The local cache has this entry under the key. -/
structure Caches (s : DistributedAuthManager) (key : Bytes) (entry : Entry Bytes) : Prop where
  value : s.userCache key = entry.map Prod.fst
  expiry : s.cacheExpiry key = entry.map Prod.snd

section Cache

variable {s : DistributedAuthManager} {key other value : Bytes} {entry : Entry Bytes} {now ttl : Int}

theorem updateLocalCache_caches :
    (s.updateLocalCache now key value ttl).Caches key (some (value, now + seconds ttl)) :=
  ⟨by simp [updateLocalCache], by simp [updateLocalCache]⟩

theorem updateLocalCache_other (caches : s.Caches key entry) (different : key ≠ other) :
    (s.updateLocalCache now other value ttl).Caches key entry :=
  ⟨by simp [updateLocalCache, different, caches.value],
    by simp [updateLocalCache, different, caches.expiry]⟩

theorem invalidateLocalCache_caches : (s.invalidateLocalCache key).Caches key none :=
  ⟨by simp [invalidateLocalCache], by simp [invalidateLocalCache]⟩

theorem invalidateLocalCache_other (caches : s.Caches key entry) (different : key ≠ other) :
    (s.invalidateLocalCache other).Caches key entry :=
  ⟨by simp [invalidateLocalCache, different, caches.value],
    by simp [invalidateLocalCache, different, caches.expiry]⟩

theorem cleanupExpiredCache_caches (caches : s.Caches key entry) :
    (s.cleanupExpiredCache now).Caches key (Touch.sweep.apply now entry) := by
  obtain ⟨value, expiry⟩ := caches
  cases entry with
  | none => exact ⟨by simp [cleanupExpiredCache, value, Touch.apply],
      by simp [cleanupExpiredCache, expiry, Touch.apply]⟩
  | some kept =>
      obtain ⟨kept, last⟩ := kept
      have decided : s.expired now key = decide (now > last) := by simp [expired, expiry]
      by_cases late : now > last
      · constructor <;> simp [cleanupExpiredCache, decided, late, Touch.apply]
      · constructor <;>
          simp [cleanupExpiredCache, decided, late, Touch.apply, value, expiry, not_lt.mp late]

theorem getFromLocalCache_eq (caches : s.Caches key entry) :
    s.getFromLocalCache now key = (entry.read now).getD [] := by
  obtain ⟨value, expiry⟩ := caches
  unfold getFromLocalCache
  cases entry with
  | none => simp [value, Entry.read]
  | some kept =>
      simp only [value, expiry, Option.map_some, Entry.read, Option.filter_some]
      by_cases late : now > kept.2
      · simp [late]
      · simp [late]

@[simp] theorem storeUserInRedis_userKey (username : Bytes) :
    (s.storeUserInRedis username value).userKey = s.userKey := rfl

theorem storeUserInRedis_other {username : Bytes} (caches : s.Caches key entry)
    (different : key ≠ s.userKey username) : (s.storeUserInRedis username value).Caches key entry :=
  ⟨by simp [storeUserInRedis, different, caches.value], caches.expiry⟩

theorem deleteUserFromRedis_other {username : Bytes} (caches : s.Caches key entry)
    (different : key ≠ s.userKey username) : (s.deleteUserFromRedis username).2.Caches key entry :=
  ⟨by simp [deleteUserFromRedis, different, caches.value], caches.expiry⟩

end Cache

/-! ## What does not change -/

section Frame

variable {s : DistributedAuthManager} {clock : Clock}

theorem perform_cluster (call : Call) :
    (s.perform clock call).2.clusterId = s.clusterId ∧
      (s.perform clock call).2.healthy = s.healthy := by
  cases call with
  | addUser username hashedPassword | updateUserPassword username hashedPassword =>
      simp only [perform, updateUserPassword, addUser]
      split <;> exact ⟨rfl, rfl⟩
  | removeUser username =>
      simp only [perform, removeUser]
      split
      · exact ⟨rfl, rfl⟩
      · split <;> exact ⟨rfl, rfl⟩
  | createSession username clientInfo digits =>
      simp only [perform, createSession]
      split <;> exact ⟨rfl, rfl⟩
  | validateSession sessionId =>
      have inRedis : (s.validateInRedis clock.steady sessionId).2.clusterId = s.clusterId ∧
          (s.validateInRedis clock.steady sessionId).2.healthy = s.healthy := by
        simp only [validateInRedis]
        split <;> exact ⟨rfl, rfl⟩
      simp only [perform, validateSession]
      split
      · exact ⟨rfl, rfl⟩
      split
      · exact inRedis
      split
      · exact ⟨rfl, rfl⟩
      · exact inRedis
  | invalidateSession sessionId =>
      simp only [perform, invalidateSession]
      split <;> exact ⟨rfl, rfl⟩
  | cleanupExpiredCache => exact ⟨rfl, rfl⟩

theorem Run.cluster {t : DistributedAuthManager} {past : List Event} (run : Run s past t) :
    t.clusterId = s.clusterId ∧ t.healthy = s.healthy := by
  induction run with
  | start => exact ⟨rfl, rfl⟩
  | call clock call _ _ ih =>
      obtain ⟨clusterId, healthy⟩ := perform_cluster call
      exact ⟨clusterId.trans ih.1, healthy.trans ih.2⟩

end Frame

end DistributedAuthManager

end EmailServer.Auth
