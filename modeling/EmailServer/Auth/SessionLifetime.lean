import EmailServer.Auth.DistributedRuns

/-! # How long a session lives

A session is kept twice, in `sessionCache_` and in the local cache, and both
copies carry the same expiry. The lifetime is `SESSION_TIMEOUT.count()`
seconds, and the count is one of hours.
-/

namespace EmailServer.Auth

namespace DistributedAuthManager

/-- What a call did to a session. -/
inductive SessionChange where
  | created (username clientInfo : Bytes) (time : Int)
  | ended
  deriving DecidableEq

/-- The session was created by the call that returned its id, or invalidated.
    An empty id names no session. -/
def Event.sessionChange (sessionId : Bytes) (e : Event) : Option SessionChange :=
  if sessionId = [] then none
  else
    match e.call, e.reply with
    | .createSession username clientInfo _, .session id =>
        if id = sessionId then some (.created username clientInfo e.time) else none
    | .invalidateSession id, _ => if id = sessionId then some .ended else none
    | _, _ => none

def sessionValue (username clientInfo : Bytes) : Bytes := username ++ ascii ":" ++ clientInfo

def SessionChange.touch : SessionChange → Touch Bytes
  | .created username clientInfo _ =>
      .put (sessionValue username clientInfo) (seconds SESSION_TIMEOUT_COUNT)
  | .ended => .drop

def SessionChange.entry : SessionChange → Entry Bytes
  | .created username clientInfo time =>
      some (sessionValue username clientInfo, time + seconds SESSION_TIMEOUT_COUNT)
  | .ended => none

/-- What the call does to both copies of the session. -/
def Event.sessionTouch (sessionId : Bytes) : Event → Option (Int × Touch Bytes) :=
  Event.touchBy (Event.sessionChange sessionId) SessionChange.touch

/-- Both copies of the session are this entry. -/
structure Keeps (s : DistributedAuthManager) (sessionId : Bytes) (entry : Entry Bytes) : Prop where
  cached : s.Caches (s.sessionKey sessionId) entry
  stored : s.sessionCache (s.sessionKey sessionId) = entry
  colon : ∀ kept, entry = some kept → Bytes.colon ∈ kept.1

section Sessions

variable {s t : DistributedAuthManager} {now : Int} {sessionId : Bytes}
  {past : List Event} {entry : Entry Bytes}

/-! ## Validation -/

theorem read_colon (keeps : s.Keeps sessionId entry) {value : Bytes}
    (alive : entry.read now = some value) : Bytes.colon ∈ value := by
  obtain ⟨kept, living, rfl⟩ := Option.map_eq_some_iff.mp alive
  exact keeps.colon kept (Option.eq_some_of_filter_eq_some living)

theorem validateInRedis_dead (keeps : s.Keeps sessionId entry) (dead : entry.read now = none) :
    s.validateInRedis now sessionId = (none, s) := by
  have found : s.getSessionFromRedis now sessionId = ([], []) := by
    unfold getSessionFromRedis
    rw [keeps.stored]
    cases entry with
    | none => rfl
    | some kept =>
        have late : now > kept.2 := by
          simpa [Entry.read, Option.filter] using dead
        simp [late]
  simp [validateInRedis, found]

theorem validateSession_eq (healthy : s.healthy = true) (named : sessionId ≠ [])
    (keeps : s.Keeps sessionId entry) :
    s.validateSession now sessionId =
      ((entry.read now).map fun value => value.takeWhile (· != Bytes.colon), s) := by
  unfold validateSession
  rw [if_neg (by simp [healthy, named]), getFromLocalCache_eq keeps.cached]
  cases alive : entry.read now with
  | none => simp [validateInRedis_dead keeps alive]
  | some value =>
      have colon := read_colon keeps alive
      have nonempty : value ≠ [] := List.ne_nil_of_mem colon
      simp [nonempty, Bytes.cut, colon]

theorem validateSession_unnamed : s.validateSession now [] = (none, s) := by
  simp [validateSession]

theorem validateSession_same (healthy : s.healthy = true) (keeps : s.Keeps sessionId entry) :
    (s.validateSession now sessionId).2 = s := by
  by_cases named : sessionId = []
  · rw [named, validateSession_unnamed]
  · rw [validateSession_eq healthy named keeps]

/-! ## Calls -/

theorem generateSessionId_ne_nil (digits : Vector (Fin 16) 32) : generateSessionId digits ≠ [] := by
  intro empty
  have length := congrArg List.length empty
  simp [generateSessionId] at length

theorem sessionValue_colon (username clientInfo : Bytes) :
    Bytes.colon ∈ sessionValue username clientInfo := by
  have colon : Bytes.colon ∈ ascii ":" := by decide
  simp [sessionValue, colon]

theorem Keeps.other {s' : DistributedAuthManager} (keeps : s.Keeps sessionId entry)
    (cluster : s'.clusterId = s.clusterId)
    (cached : s'.Caches (s.sessionKey sessionId) entry)
    (stored : s'.sessionCache (s.sessionKey sessionId) = s.sessionCache (s.sessionKey sessionId)) :
    s'.Keeps sessionId entry := by
  have key : s'.sessionKey sessionId = s.sessionKey sessionId := by
    simp only [sessionKey, clusterKey, cluster]
  exact ⟨key ▸ cached, by rw [key, stored, keeps.stored], keeps.colon⟩

theorem createSession_keeps (healthy : s.healthy = true) (keeps : s.Keeps sessionId entry)
    (clock : Clock) (username clientInfo : Bytes) (digits : Vector (Fin 16) 32) :
    (s.createSession clock username clientInfo digits).2.Keeps sessionId
      (if sessionId ≠ [] ∧ (s.createSession clock username clientInfo digits).1 = sessionId then
        some (sessionValue username clientInfo, clock.steady + seconds SESSION_TIMEOUT_COUNT)
      else entry) := by
  unfold createSession
  by_cases empty : username = []
  · rw [if_pos (.inr empty), if_neg fun both => both.1 both.2.symm]
    exact keeps
  rw [if_neg (by simp [healthy, empty])]
  dsimp only
  by_cases same : generateSessionId digits = sessionId
  · subst same
    rw [if_pos ⟨generateSessionId_ne_nil digits, rfl⟩]
    have ttl : clock.wall + SESSION_TIMEOUT_COUNT - clock.wall = SESSION_TIMEOUT_COUNT := by omega
    rw [ttl]
    refine ⟨updateLocalCache_caches, ?_, ?_⟩
    · simp [updateLocalCache, storeSessionInRedis, sessionKey, clusterKey, ttl, sessionValue]
    · intro kept new
      cases new
      exact sessionValue_colon username clientInfo
  · rw [if_neg fun both => same both.2]
    have different : s.sessionKey sessionId ≠ s.sessionKey (generateSessionId digits) :=
      fun keys => same (sessionKey_injective keys).symm
    apply keeps.other
    · rfl
    · exact updateLocalCache_other ⟨keeps.cached.value, keeps.cached.expiry⟩ different
    · simp [updateLocalCache, storeSessionInRedis, different]

theorem invalidateSession_keeps (healthy : s.healthy = true) (keeps : s.Keeps sessionId entry)
    (id : Bytes) :
    (s.invalidateSession id).Keeps sessionId
      (if sessionId ≠ [] ∧ id = sessionId then none else entry) := by
  unfold invalidateSession
  by_cases empty : id = []
  · rw [if_pos (.inr empty), if_neg fun both => both.1 (both.2.symm.trans empty)]
    exact keeps
  rw [if_neg (by simp [healthy, empty])]
  by_cases same : id = sessionId
  · subst same
    rw [if_pos ⟨empty, rfl⟩]
    refine ⟨invalidateLocalCache_caches, ?_, ?_⟩
    · simp [invalidateLocalCache, deleteSessionFromRedis, sessionKey, clusterKey]
    · intro kept absent
      cases absent
  · rw [if_neg fun both => same both.2]
    have different : s.sessionKey sessionId ≠ s.sessionKey id :=
      fun keys => same (sessionKey_injective keys).symm
    apply keeps.other
    · rfl
    · exact invalidateLocalCache_other ⟨keeps.cached.value, keeps.cached.expiry⟩ different
    · simp [invalidateLocalCache, deleteSessionFromRedis, different]

theorem cleanupExpiredCache_keeps (keeps : s.Keeps sessionId entry) :
    (s.cleanupExpiredCache now).Keeps sessionId (Touch.sweep.apply now entry) where
  cached := cleanupExpiredCache_caches keeps.cached
  stored := by
    change (s.sessionCache (s.sessionKey sessionId)).filter _ = _
    rw [keeps.stored]
    rfl
  colon kept alive := keeps.colon kept (Option.eq_some_of_filter_eq_some alive)

theorem addUser_keeps (keeps : s.Keeps sessionId entry) (username hash : Bytes) :
    (s.addUser now username hash).2.Keeps sessionId entry := by
  have elsewhere : s.sessionKey sessionId ≠ s.userKey username := userKey_ne_sessionKey.symm
  unfold addUser
  split
  · exact keeps
  · exact keeps.other rfl
      (updateLocalCache_other (storeUserInRedis_other keeps.cached elsewhere) elsewhere) rfl

theorem removeUser_keeps (keeps : s.Keeps sessionId entry) (username : Bytes) :
    (s.removeUser username).2.Keeps sessionId entry := by
  have elsewhere : s.sessionKey sessionId ≠ s.userKey username := userKey_ne_sessionKey.symm
  have kept := deleteUserFromRedis_other keeps.cached elsewhere
  unfold removeUser
  split
  · exact keeps
  dsimp only
  split
  · exact keeps.other rfl (invalidateLocalCache_other kept elsewhere) rfl
  · exact keeps.other rfl kept rfl

theorem perform_session (healthy : s.healthy = true) (clock : Clock)
    (all : ∀ id, ∃ entry, s.Keeps id entry) (call : Call) (keeps : s.Keeps sessionId entry) :
    (s.perform clock call).2.Keeps sessionId
      (entry.touched (Event.sessionTouch sessionId ⟨clock, call, (s.perform clock call).1⟩)) := by
  cases call with
  | addUser username hash | updateUserPassword username hash =>
      simpa [perform, updateUserPassword, Event.sessionTouch, Event.touchBy, Event.sessionChange, Entry.touched]
        using addUser_keeps keeps username hash
  | removeUser username =>
      simpa [perform, Event.sessionTouch, Event.touchBy, Event.sessionChange, Entry.touched]
        using removeUser_keeps keeps username
  | createSession username clientInfo digits =>
      have step := createSession_keeps healthy keeps clock username clientInfo digits
      by_cases named : sessionId = [] <;>
        by_cases same : (s.createSession clock username clientInfo digits).1 = sessionId <;>
        simpa [perform, same, named, Event.sessionTouch, Event.touchBy, Event.sessionChange, Entry.touched,
          SessionChange.touch, Touch.apply, Event.time] using step
  | validateSession id =>
      obtain ⟨other, keepsOther⟩ := all id
      simpa [perform, Event.sessionTouch, Event.touchBy, Event.sessionChange, Entry.touched,
        validateSession_same healthy keepsOther] using keeps
  | invalidateSession id =>
      have step := invalidateSession_keeps healthy keeps id
      by_cases named : sessionId = [] <;> by_cases same : id = sessionId <;>
        simpa [perform, same, named, Event.sessionTouch, Event.touchBy, Event.sessionChange, Entry.touched,
          SessionChange.touch, Touch.apply] using step
  | cleanupExpiredCache => exact cleanupExpiredCache_keeps keeps

theorem run_keeps {clusterId : Bytes} (run : Run (initialized clusterId) past t)
    (sessionId : Bytes) :
    t.Keeps sessionId (Entry.after (past.filterMap (Event.sessionTouch sessionId))) := by
  induction run generalizing sessionId with
  | start => exact ⟨⟨rfl, rfl⟩, rfl, fun _ absent => nomatch absent⟩
  | call clock call run _ ih =>
      rw [Entry.after_filterMap_concat]
      exact perform_session run.cluster.2 clock (fun id => ⟨_, ih id⟩) call (ih sessionId)

theorem sessionChange_created {e : Event} {username clientInfo : Bytes} {time : Int}
    (change : e.sessionChange sessionId = some (.created username clientInfo time)) :
    time = e.time := by
  unfold Event.sessionChange at change
  split at change
  · cases change
  · split at change <;> grind

theorem sessionChange_writes (sessionId : Bytes) :
    Writes (Event.sessionChange sessionId) SessionChange.touch SessionChange.entry where
  written e changed change := by
    cases changed with
    | created username clientInfo time =>
        obtain rfl := sessionChange_created change
        rfl
    | ended => rfl
  living changed value ttl put := by
    cases changed with
    | created username clientInfo time =>
        cases put
        decide
    | ended => cases put
  sweepless e sweep := by simp [Event.sessionChange, sweep]

theorem sessionChange_unnamed (past : List Event) : latest (Event.sessionChange []) past = none := by
  simp [latest, Event.sessionChange]

/-- What is read of a session is what the call that created it has left behind, up to
    `SESSION_TIMEOUT.count()` seconds later. -/
theorem session_read {clusterId : Bytes} (run : Run (initialized clusterId) past t)
    (last : ∀ e ∈ past, e.time ≤ now) {value : Bytes} :
    (Entry.after (past.filterMap (Event.sessionTouch sessionId))).read now = some value ↔
      ∃ username clientInfo time,
        latest (Event.sessionChange sessionId) past = some (.created username clientInfo time) ∧
          now ≤ time + seconds SESSION_TIMEOUT_COUNT ∧ value = sessionValue username clientInfo := by
  have orderly : Entry.Orderly (past.filterMap (Event.sessionTouch sessionId)) :=
    (sessionChange_writes sessionId).orderly run
  have written : Entry.written (past.filterMap (Event.sessionTouch sessionId)) =
      (latest (Event.sessionChange sessionId) past).map SessionChange.entry :=
    (sessionChange_writes sessionId).last_written
  simp only [Entry.read_after orderly (Writes.last last), written]
  constructor
  · intro ⟨expiry, entry, inTime⟩
    obtain ⟨change, latest, entry⟩ := Option.map_eq_some_iff.mp entry
    cases change with
    | created username clientInfo time =>
        cases entry
        exact ⟨username, clientInfo, time, latest, inTime, rfl⟩
    | ended => cases entry
  · intro ⟨username, clientInfo, time, latest, inTime, same⟩
    exact ⟨_, by rw [latest, same]; rfl, inTime⟩

/-- A session is valid up to `SESSION_TIMEOUT.count()` seconds after its creation. -/
theorem validateSession_iff {clusterId : Bytes} (run : Run (initialized clusterId) past t)
    (last : ∀ e ∈ past, e.time ≤ now) :
    (t.validateSession now sessionId).1 ≠ none ↔
      ∃ username clientInfo time,
        latest (Event.sessionChange sessionId) past = some (.created username clientInfo time) ∧
          now ≤ time + seconds SESSION_TIMEOUT_COUNT := by
  by_cases named : sessionId = []
  · simp [named, validateSession_unnamed, sessionChange_unnamed]
  rw [validateSession_eq run.cluster.2 named (run_keeps run sessionId)]
  simp only [ne_eq, Option.map_eq_none_iff]
  rw [← ne_eq, Option.ne_none_iff_exists']
  simp only [session_read run last]
  constructor
  · intro ⟨value, username, clientInfo, time, latest, inTime, same⟩
    exact ⟨username, clientInfo, time, latest, inTime⟩
  · intro ⟨username, clientInfo, time, latest, inTime⟩
    exact ⟨_, username, clientInfo, time, latest, inTime, rfl⟩

end Sessions

/-! ## Lifetimes -/

/-- After every run, at every later time and for every id: a session is valid
    exactly when it was created last and no more than 24 hours ago, asking
    changes nothing, and no user has its key, if and only if it was not created
    last between 24 seconds and 24 hours ago. -/
theorem lifetime_exact_iff {clusterId : Bytes} {past : List Event} {t : DistributedAuthManager}
    (run : Run (initialized clusterId) past t) {now : Int} (last : ∀ e ∈ past, e.time ≤ now)
    (sessionId : Bytes) :
    (((t.validateSession now sessionId).1 ≠ none ↔
        ∃ username clientInfo time,
          latest (Event.sessionChange sessionId) past = some (.created username clientInfo time) ∧
            now ≤ time + hours 24) ∧
      (t.validateSession now sessionId).2 = t ∧
      ∀ user, t.userKey user ≠ t.sessionKey sessionId) ↔
    ¬ ∃ username clientInfo time,
      latest (Event.sessionChange sessionId) past = some (.created username clientInfo time) ∧
        time + seconds 24 < now ∧ now ≤ time + hours 24 := by
  have same : (t.validateSession now sessionId).2 = t :=
    validateSession_same run.cluster.2 (run_keeps run sessionId)
  have keys : ∀ user, t.userKey user ≠ t.sessionKey sessionId := fun _ => userKey_ne_sessionKey
  rw [validateSession_iff run last, and_iff_left ⟨same, keys⟩]
  cases latest (Event.sessionChange sessionId) past with
  | none => simp
  | some change =>
      cases change with
      | ended => simp
      | created username clientInfo time =>
          have shorter : seconds 24 ≤ hours 24 := by decide
          simp only [Option.some.injEq, SessionChange.created.injEq, SESSION_TIMEOUT_COUNT]
          constructor
          · intro lived ⟨_, _, _, ⟨rfl, rfl, rfl⟩, late, within⟩
            obtain ⟨_, _, _, ⟨rfl, rfl, rfl⟩, inTime⟩ := lived.mpr ⟨_, _, _, ⟨rfl, rfl, rfl⟩, within⟩
            omega
          · intro never
            constructor
            · intro ⟨_, _, _, ⟨rfl, rfl, rfl⟩, inTime⟩
              exact ⟨_, _, _, ⟨rfl, rfl, rfl⟩, by omega⟩
            · intro ⟨_, _, _, ⟨rfl, rfl, rfl⟩, within⟩
              refine ⟨_, _, _, ⟨rfl, rfl, rfl⟩, ?_⟩
              by_contra late
              exact never ⟨_, _, _, ⟨rfl, rfl, rfl⟩, by omega, within⟩

/-- One session, created at time 0. -/
def sessionOfBob : List (Clock × Call) :=
  [(⟨0, 0⟩, .createSession (ascii "bob") (ascii "web") (Vector.replicate 32 7))]

theorem sessionOfBob_run :
    Run (initialized (ascii "c")) (runCalls [] (initialized (ascii "c")) sessionOfBob).1
      (runCalls [] (initialized (ascii "c")) sessionOfBob).2 := by
  apply Run.start.calls
  · intro e member
    cases member
  · exact List.pairwise_singleton _ _

theorem lifetime_exact_at_once :
    ((runCalls [] (initialized (ascii "c")) sessionOfBob).2.validateSession (seconds 24)
      (List.replicate 32 (hexDigit 7))).1 ≠ none := by
  let past := (runCalls [] (initialized (ascii "c")) sessionOfBob).1
  let sessionId := List.replicate 32 (hexDigit 7)
  have created : latest (Event.sessionChange sessionId) past =
      some (.created (ascii "bob") (ascii "web") 0) := by decide +kernel
  have last : ∀ e ∈ past, e.time ≤ seconds 24 := by decide +kernel
  have law := (lifetime_exact_iff sessionOfBob_run last sessionId).mpr (by
    intro ⟨_, _, _, other, late, _⟩
    cases created.symm.trans other
    exact absurd late (by decide))
  exact law.1.mpr ⟨_, _, _, created, by decide⟩

/-- After half a minute a session is no longer valid. -/
theorem session_expired_early : ∃ past t sessionId, Run (initialized (ascii "c")) past t ∧
    (∀ e ∈ past, e.time ≤ seconds 30) ∧
    latest (Event.sessionChange sessionId) past =
      some (.created (ascii "bob") (ascii "web") 0) ∧
    seconds 30 ≤ 0 + hours 24 ∧ (t.validateSession (seconds 30) sessionId).1 = none :=
  ⟨_, _, List.replicate 32 (hexDigit 7), sessionOfBob_run, by decide +kernel, by decide +kernel,
    by decide, by decide +kernel⟩

end DistributedAuthManager

end EmailServer.Auth
