import EmailServer.Auth.DistributedRuns

/-! # How long a user is kept

The user table is the local cache, and the sweep of expired cache entries takes
users with it. A user lasts as long as no sweep comes later than the lifetime of
a cache entry after the user was last written.
-/

namespace EmailServer.Auth

namespace DistributedAuthManager

/-- What a successful call did to a user. -/
inductive UserChange where
  | stored (hash : Bytes) (time : Int)
  | removed
  deriving DecidableEq

/-- The change to `user`, if the call succeeded. -/
def Event.userChange (user : Bytes) (e : Event) : Option UserChange :=
  match e.call, e.reply with
  | .addUser username hash, .done true =>
      if username = user then some (.stored hash e.time) else none
  | .updateUserPassword username hash, .done true =>
      if username = user then some (.stored hash e.time) else none
  | .removeUser username, .done true => if username = user then some .removed else none
  | _, _ => none

def UserChange.touch : UserChange → Touch Bytes
  | .stored hash _ => .put hash (seconds CACHE_TTL)
  | .removed => .drop

def UserChange.entry : UserChange → Entry Bytes
  | .stored hash time => some (hash, time + seconds CACHE_TTL)
  | .removed => none

/-- What the call does to the cache entry of `user`. -/
def Event.userTouch (user : Bytes) : Event → Option (Int × Touch Bytes) :=
  Event.touchBy (Event.userChange user) UserChange.touch

section Users

variable {s t : DistributedAuthManager} {user : Bytes} {past : List Event}
  {entry : Entry Bytes}

theorem addUser_caches (healthy : s.healthy = true) (hash : Bytes) {username : Bytes} {now : Int}
    (caches : s.Caches (s.userKey user) entry) :
    (s.addUser now username hash).2.Caches (s.userKey user)
      (if (s.addUser now username hash).1 = true ∧ username = user then
        some (hash, now + seconds CACHE_TTL) else entry) := by
  unfold addUser
  by_cases empty : username = []
  · simpa [empty] using caches
  · simp only [healthy, empty, Bool.not_true, Bool.false_eq_true, or_self, if_false,
      storeUserInRedis_userKey, true_and]
    by_cases same : username = user
    · subst same
      simpa using updateLocalCache_caches
    · have different : s.userKey user ≠ s.userKey username :=
        fun keys => same (userKey_injective keys).symm
      rw [if_neg same]
      exact updateLocalCache_other (storeUserInRedis_other caches different) different

theorem removeUser_caches (healthy : s.healthy = true) {username : Bytes}
    (caches : s.Caches (s.userKey user) entry) :
    (s.removeUser username).2.Caches (s.userKey user)
      (if (s.removeUser username).1 = true ∧ username = user then none else entry) := by
  unfold removeUser
  by_cases empty : username = []
  · simpa [empty] using caches
  rw [if_neg (by simp [healthy, empty])]
  by_cases same : username = user
  · subst same
    by_cases present : (s.deleteUserFromRedis username).1 = true
    · simpa [present] using invalidateLocalCache_caches
    · -- nothing was there to erase, and nothing is there now
      have absent : s.userCache (s.userKey username) = none := by
        simpa [deleteUserFromRedis] using present
      have value : (s.deleteUserFromRedis username).2.userCache = s.userCache :=
        Function.update_eq_self_iff.mpr absent.symm
      simp only [present, Bool.false_eq_true, if_false, false_and]
      exact ⟨by rw [value]; exact caches.value, caches.expiry⟩
  · have different : s.userKey user ≠ s.userKey username :=
      fun keys => same (userKey_injective keys).symm
    have kept := deleteUserFromRedis_other caches different
    simp only [same, and_false, if_false]
    split
    · exact invalidateLocalCache_other kept different
    · exact kept

/-- Every call treats the entry of a user as its touch says. -/
theorem perform_user (healthy : s.healthy = true) (clock : Clock) (call : Call)
    (caches : s.Caches (s.userKey user) entry) :
    (s.perform clock call).2.Caches (s.userKey user)
      (entry.touched (Event.userTouch user ⟨clock, call, (s.perform clock call).1⟩)) := by
  have elsewhere : ∀ sessionId, s.userKey user ≠ s.sessionKey sessionId :=
    fun _ => userKey_ne_sessionKey
  cases call with
  | addUser username hash | updateUserPassword username hash =>
      have step := @addUser_caches s user entry healthy hash username clock.steady caches
      simp only [perform, updateUserPassword, Prod.map_fst, Prod.map_snd, id]
      cases ok : (s.addUser clock.steady username hash).1 with
      | false => simpa [ok, Event.userTouch, Event.touchBy, Event.userChange, Entry.touched] using step
      | true =>
          rw [ok] at step
          by_cases same : username = user <;>
            simpa [same, Event.userTouch, Event.touchBy, Event.userChange, Entry.touched, UserChange.touch,
              Touch.apply, Event.time] using step
  | removeUser username =>
      have step := @removeUser_caches s user entry healthy username caches
      simp only [perform, Prod.map_fst, Prod.map_snd, id]
      cases ok : (s.removeUser username).1 with
      | false => simpa [ok, Event.userTouch, Event.touchBy, Event.userChange, Entry.touched] using step
      | true =>
          rw [ok] at step
          by_cases same : username = user <;>
            simpa [same, Event.userTouch, Event.touchBy, Event.userChange, Entry.touched, UserChange.touch,
              Touch.apply] using step
  | createSession username clientInfo digits =>
      simp only [perform, createSession]
      split
      · exact caches
      · exact updateLocalCache_other ⟨caches.value, caches.expiry⟩ (elsewhere _)
  | validateSession sessionId => 
      have inRedis : (s.validateInRedis clock.steady sessionId).2.Caches (s.userKey user) entry := by
        simp only [validateInRedis]
        split
        · exact caches
        · exact updateLocalCache_other caches (elsewhere _)
      simp only [perform, validateSession]
      split
      · exact caches
      split
      · exact inRedis
      split
      · exact caches
      · exact inRedis
  | invalidateSession sessionId =>
      simp only [perform, invalidateSession]
      split
      · exact caches
      · exact invalidateLocalCache_other ⟨caches.value, caches.expiry⟩ (elsewhere _)
  | cleanupExpiredCache => exact cleanupExpiredCache_caches caches

theorem run_user {clusterId : Bytes} (run : Run (initialized clusterId) past t) (user : Bytes) :
    t.Caches (t.userKey user) (Entry.after (past.filterMap (Event.userTouch user))) := by
  induction run with
  | start => exact ⟨rfl, rfl⟩
  | @call past t clock call run _ ih =>
      have step := perform_user run.cluster.2 clock call ih
      have key : (t.perform clock call).2.userKey user = t.userKey user := by
        simp only [userKey, clusterKey, (perform_cluster call).1]
      rw [key, Entry.after_filterMap_concat]
      exact step

theorem userChange_time {e : Event} {hash : Bytes} {time : Int}
    (change : e.userChange user = some (.stored hash time)) : time = e.time := by
  unfold Event.userChange at change
  split at change <;> grind

theorem userChange_writes (user : Bytes) :
    Writes (Event.userChange user) UserChange.touch UserChange.entry where
  written e changed change := by
    cases changed with
    | stored hash time =>
        obtain rfl := userChange_time change
        rfl
    | removed => rfl
  living changed value ttl put := by
    cases changed with
    | stored hash time =>
        cases put
        decide
    | removed => cases put
  sweepless e sweep := by simp [Event.userChange, sweep]

theorem hashPassword_ne_nil (sha256 : Bytes → Vector UInt8 32) (password : Bytes) :
    hashPassword sha256 password ≠ [] := by
  intro empty
  have length := congrArg List.length empty
  simp [hashPassword, hexByte, List.length_flatMap] at length

end Users

/-! ## The user table -/

/-- After every run: a user whose last successful change stored a hash is still
    looked up and checked with it if and only if the hash is empty or no sweep
    ran more than 300 seconds after that change. -/
theorem user_kept_iff {clusterId : Bytes} {past : List Event} {t : DistributedAuthManager}
    (run : Run (initialized clusterId) past t) {user hash : Bytes} {time : Int}
    (last : latest (Event.userChange user) past = some (.stored hash time))
    (sha256 : Bytes → Vector UInt8 32) :
    (t.getUserFromRedis user = hash ∧
        ∀ pass, t.validate sha256 user pass = verifyPassword sha256 pass hash) ↔
      (hash = [] ∨
        ∀ e ∈ past, e.call = .cleanupExpiredCache → e.time ≤ time + seconds CACHE_TTL) := by
  have stored : Entry.written (past.filterMap (Event.userTouch user)) =
      some (some (hash, time + seconds CACHE_TTL)) := by
    rw [Event.userTouch, (userChange_writes user).last_written, last]
    rfl
  have swept : Entry.Swept (past.filterMap (Event.userTouch user)) (time + seconds CACHE_TTL) ↔
      ¬ ∀ e ∈ past, e.call = .cleanupExpiredCache → e.time ≤ time + seconds CACHE_TTL := by
    rw [Event.userTouch, (userChange_writes user).swept]
    push Not
    rfl
  have orderly : Entry.Orderly (past.filterMap (Event.userTouch user)) :=
    (userChange_writes user).orderly run
  have found := (run_user run user).value
  have healthy : t.healthy = true := run.cluster.2
  rcases (Entry.after_eq orderly).1 _ _ stored with ⟨gone, absent⟩ | ⟨kept, present⟩
  · have lost : t.getUserFromRedis user = [] := by simp [getUserFromRedis, found, absent]
    simp only [swept.mp gone, or_false]
    constructor
    · intro ⟨looked, _⟩
      exact looked.symm.trans lost
    · intro empty
      refine ⟨lost.trans empty.symm, ?_⟩
      intro pass
      simp [validate, healthy, lost, verifyPassword, empty, hashPassword_ne_nil]
  · have looked : t.getUserFromRedis user = hash := by simp [getUserFromRedis, found, present]
    refine iff_of_true ⟨looked, ?_⟩ (.inr (not_not.mp (mt swept.mpr kept)))
    intro pass
    simp only [validate, healthy, looked, Bool.not_true, Bool.false_eq_true, if_false]
    split
    · rename_i empty
      simp [verifyPassword, empty, hashPassword_ne_nil]
    · rfl

/-- A user that is stored and swept after `delay` seconds. -/
def storedAndSwept (delay : Int) : List (Clock × Call) :=
  [(⟨0, 0⟩, .addUser (ascii "bob") (ascii "h")), (⟨seconds delay, delay⟩, .cleanupExpiredCache)]

theorem storedAndSwept_run {delay : Int} (nonneg : 0 ≤ seconds delay) :
    Run (initialized (ascii "c")) (runCalls [] (initialized (ascii "c")) (storedAndSwept delay)).1
      (runCalls [] (initialized (ascii "c")) (storedAndSwept delay)).2 := by
  apply Run.start.calls
  · intro e member
    cases member
  · simpa [storedAndSwept] using nonneg

theorem user_kept_soon :
    (runCalls [] (initialized (ascii "c")) (storedAndSwept 300)).2.getUserFromRedis (ascii "bob") =
      ascii "h" := by
  have last : latest (Event.userChange (ascii "bob"))
      (runCalls [] (initialized (ascii "c")) (storedAndSwept 300)).1 =
        some (.stored (ascii "h") 0) := by decide +kernel
  have law := user_kept_iff (storedAndSwept_run (by decide)) last fun _ => Vector.replicate 32 0
  exact (law.mpr (.inr (by decide +kernel))).1

/-- A sweep more than five minutes after a user was added removes the user. -/
theorem user_swept : ∃ past t, Run (initialized (ascii "c")) past t ∧
    latest (Event.userChange (ascii "bob")) past = some (.stored (ascii "h") 0) ∧
    t.getUserFromRedis (ascii "bob") ≠ ascii "h" :=
  ⟨_, _, storedAndSwept_run (by decide : 0 ≤ seconds 301), by decide +kernel, by decide +kernel⟩

end DistributedAuthManager

end EmailServer.Auth
