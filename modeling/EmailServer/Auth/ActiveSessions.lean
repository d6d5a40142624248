import Mathlib.Data.List.Dedup
import EmailServer.Auth.SessionLifetime
import EmailServer.Library.TextSearch

/-! # The list of sessions

`getActiveSessions` goes through `sessionCache_` and looks for keys that begin with
`session:`. All keys of that map are made by `sessionKey`, which begins with
`emailserver:`, so the list is empty whatever sessions there are.
-/

namespace EmailServer.Auth

namespace DistributedAuthManager

/-- What a loop over `sessionCache_` sees: keys, values and times of expiry. -/
abbrev SessionEntries := List (Bytes × Bytes × Int)

/-- One of the orders in which a loop goes through the sessions. -/
structure Iterates (s : DistributedAuthManager) (entries : SessionEntries) : Prop where
  keys : (entries.map Prod.fst).Nodup
  all : ∀ key kept, (key, kept) ∈ entries ↔ s.sessionCache key = some kept

/-- `key.find("session:") == 0` -/
def isSessionKey (key : Bytes) : Bool := (ascii "session:").isPrefixOf key

def getUserSessionsFromRedis (now : Int) (entries : SessionEntries) (username : Bytes) :
    List Bytes :=
  entries.filterMap fun (key, value, expiry) =>
    if isSessionKey key ∧ now ≤ expiry then
      match Bytes.cut Bytes.colon value with
      | some (user, _) => if user = username then some (key.drop 8) else none
      | none => none
    else none

def getActiveSessions (now : Int) (entries : SessionEntries) (username : Bytes)
    (s : DistributedAuthManager) : List Bytes :=
  if !s.healthy then []
  else if username = [] then
    entries.filterMap fun (key, _) => if isSessionKey key then some (key.drop 8) else none
  else getUserSessionsFromRedis now entries username

/-- The list agrees with what `validateSession` would say. -/
structure ListingAgrees (now : Int) (entries : SessionEntries) (s : DistributedAuthManager) :
    Prop where
  user : ∀ username ≠ [], ∀ sessionId,
    sessionId ∈ s.getActiveSessions now entries username ↔
      (s.validateSession now sessionId).1 = some username
  all : ∀ sessionId, sessionId ∈ s.getActiveSessions now entries [] ↔
    ∃ username ≠ [], sessionId ∈ s.getActiveSessions now entries username

section Listing

variable {s t : DistributedAuthManager} {clusterId key username sessionId : Bytes} {now : Int}
  {past : List Event} {entries : SessionEntries}

/-! ## The keys of the sessions -/

theorem isSessionKey_sessionKey (s : DistributedAuthManager) (sessionId : Bytes) :
    isSessionKey (s.sessionKey sessionId) = false := rfl

theorem validateSession_sessionCache (now : Int) (sessionId : Bytes)
    (s : DistributedAuthManager) :
    (s.validateSession now sessionId).2.sessionCache = s.sessionCache := by
  have asked : (s.validateInRedis now sessionId).2.sessionCache = s.sessionCache := by
    unfold validateInRedis
    dsimp only
    split <;> rfl
  unfold validateSession
  dsimp only
  split
  · rfl
  split
  · exact asked
  split
  · rfl
  · exact asked

theorem perform_sessionCache (clock : Clock) (s : DistributedAuthManager) (call : Call) :
    ∃ ids : List Bytes, ∀ key, (s.perform clock call).2.sessionCache key ≠ none →
      s.sessionCache key ≠ none ∨ key ∈ ids.map s.sessionKey := by
  cases call with
  | addUser username hash | updateUserPassword username hash =>
      refine ⟨[], fun key there => .inl ?_⟩
      simp only [perform, updateUserPassword, addUser] at there
      split at there <;> exact there
  | removeUser username =>
      refine ⟨[], fun key there => .inl ?_⟩
      simp only [perform, removeUser] at there
      split at there
      · exact there
      · split at there <;> exact there
  | createSession username clientInfo digits =>
      refine ⟨[generateSessionId digits], fun key there => ?_⟩
      simp only [perform, createSession] at there
      split at there
      · exact .inl there
      · by_cases same : key = s.sessionKey (generateSessionId digits)
        · exact .inr (by simp [same])
        · refine .inl ?_
          simpa [updateLocalCache, storeSessionInRedis, same] using there
  | validateSession id =>
      refine ⟨[], fun key there => .inl ?_⟩
      rw [← validateSession_sessionCache clock.steady id s]
      exact there
  | invalidateSession id =>
      refine ⟨[], fun key there => .inl ?_⟩
      simp only [perform, invalidateSession] at there
      split at there
      · exact there
      · intro absent
        by_cases same : key = s.sessionKey id <;>
          simp [invalidateLocalCache, deleteSessionFromRedis, same, absent] at there
  | cleanupExpiredCache =>
      refine ⟨[], fun key there => .inl fun absent => ?_⟩
      simp [perform, cleanupExpiredCache, absent] at there

/-- All sessions are kept under keys that `sessionKey` makes, and there are finitely many. -/
theorem run_sessionKeys (run : Run (initialized clusterId) past t) :
    ∃ ids : List Bytes, ∀ key, t.sessionCache key ≠ none → key ∈ ids.map t.sessionKey := by
  induction run with
  | start => exact ⟨[], fun key there => absurd rfl there⟩
  | @call past t clock call run _ ih =>
      obtain ⟨ids, before⟩ := ih
      obtain ⟨new, step⟩ := perform_sessionCache clock t call
      have same : (t.perform clock call).2.sessionKey = t.sessionKey := by
        funext id
        simp only [sessionKey, clusterKey, (@perform_cluster t clock call).1]
      refine ⟨ids ++ new, fun key there => ?_⟩
      rw [same, List.map_append, List.mem_append]
      rcases step key there with old | added
      · exact .inl (before key old)
      · exact .inr added

theorem run_iterates (run : Run (initialized clusterId) past t) : ∃ entries, t.Iterates entries := by
  obtain ⟨ids, keys⟩ := run_sessionKeys run
  let entries : SessionEntries := (ids.map t.sessionKey).dedup.filterMap fun key =>
    (t.sessionCache key).map (key, ·)
  have listed : ∀ key kept, (key, kept) ∈ entries ↔ t.sessionCache key = some kept := by
    intro key kept
    simp only [entries, List.mem_filterMap, List.mem_dedup, Option.map_eq_some_iff, Prod.mk.injEq]
    constructor
    · rintro ⟨_, _, kept, found, rfl, rfl⟩
      exact found
    · intro found
      exact ⟨key, keys key (by simp [found]), kept, found, rfl, rfl⟩
  have ordered : (entries.map Prod.fst).Sublist (ids.map t.sessionKey).dedup := by
    rw [List.map_filterMap]
    have kept : (fun key => ((t.sessionCache key).map (key, ·)).map Prod.fst) =
        fun key => if (t.sessionCache key).isSome then some key else none := by
      funext key
      cases t.sessionCache key <;> rfl
    rw [kept]
    exact List.filterMap_eq_filter .. ▸ List.filter_sublist
  exact ⟨entries, (List.nodup_dedup _).sublist ordered, listed⟩

/-! ## The list -/

/-- The list is empty. -/
theorem getActiveSessions_nil (run : Run (initialized clusterId) past t)
    (iterates : t.Iterates entries) (username : Bytes) :
    t.getActiveSessions now entries username = [] := by
  obtain ⟨ids, keys⟩ := run_sessionKeys run
  have none : ∀ entry ∈ entries, isSessionKey entry.1 = false := by
    intro entry there
    have found := (iterates.all entry.1 entry.2).mp there
    obtain ⟨id, -, same⟩ := List.mem_map.mp (keys entry.1 (by simp [found]))
    exact same ▸ isSessionKey_sessionKey t id
  unfold getActiveSessions
  split
  · rfl
  split
  · exact List.filterMap_eq_nil_iff.mpr fun entry there => by simp [none entry there]
  · exact List.filterMap_eq_nil_iff.mpr fun entry there => by simp [none entry there]

theorem run_usernames {e : Event} (run : Run (initialized clusterId) past t) (inPast : e ∈ past)
    {clientInfo : Bytes} {digits : Vector (Fin 16) 32}
    (call : e.call = .createSession username clientInfo digits)
    (reply : e.reply = .session sessionId) (named : sessionId ≠ []) : username ≠ [] := by
  induction run with
  | start => cases inPast
  | @call past t clock _ _ _ ih =>
      rcases List.mem_append.mp inPast with old | new
      · exact ih old
      · obtain rfl := List.mem_singleton.mp new
        rintro rfl
        dsimp only at call
        subst call
        simp [perform, createSession] at reply
        exact named reply

theorem run_created (run : Run (initialized clusterId) past t) {clientInfo : Bytes} {time : Int}
    (created : latest (Event.sessionChange sessionId) past =
      some (.created username clientInfo time)) :
    username ≠ [] ∧ ∃ e ∈ past, ∃ digits, e.call = .createSession username clientInfo digits := by
  obtain ⟨e, inPast, change⟩ := latest_mem created
  unfold Event.sessionChange at change
  split at change
  · cases change
  rename_i named
  split at change
  · rename_i call reply
    split at change
    · rename_i same
      subst same
      cases change
      exact ⟨run_usernames run inPast call reply named, e, inPast, _, call⟩
    · cases change
  · split at change <;> cases change
  · cases change

theorem sessionValue_user (plain : Bytes.colon ∉ username) (clientInfo : Bytes) :
    (sessionValue username clientInfo).takeWhile (· != Bytes.colon) = username := by
  have cut := Bytes.cut_append plain clientInfo
  rw [Bytes.cut, if_pos (by simp)] at cut
  have value : sessionValue username clientInfo = username ++ Bytes.colon :: clientInfo := by
    simp [sessionValue, ascii, Bytes.colon]
  rw [value]
  exact (Prod.mk.inj (Option.some.inj cut)).1

/-- After every run whose users have no colon in their names, at every later time and whatever
    the order of the entries: the list agrees with what `validateSession` says if and only if no
    session is alive, that is none was created last in the `SESSION_TIMEOUT.count()` seconds
    before. -/
theorem listing_agrees_iff (run : Run (initialized clusterId) past t)
    (plain : ∀ e ∈ past, ∀ username clientInfo digits,
      e.call = .createSession username clientInfo digits → Bytes.colon ∉ username)
    (last : ∀ e ∈ past, e.time ≤ now) (iterates : t.Iterates entries) :
    ListingAgrees now entries t ↔
      ¬ ∃ sessionId username clientInfo time,
        latest (Event.sessionChange sessionId) past = some (.created username clientInfo time) ∧
          now ≤ time + seconds SESSION_TIMEOUT_COUNT := by
  have empty : ∀ username, t.getActiveSessions now entries username = [] :=
    getActiveSessions_nil run iterates
  constructor
  · intro agrees ⟨sessionId, username, clientInfo, time, created, inTime⟩
    obtain ⟨nonempty, e, inPast, digits, call⟩ := run_created run created
    have named : sessionId ≠ [] := by
      rintro rfl
      simp [sessionChange_unnamed] at created
    have valid : (t.validateSession now sessionId).1 = some username := by
      have read := (session_read run last).mpr ⟨_, _, _, created, inTime, rfl⟩
      rw [validateSession_eq run.cluster.2 named (run_keeps run sessionId), read]
      exact congrArg some (sessionValue_user (plain e inPast _ _ _ call) _)
    have listed := (agrees.user username nonempty sessionId).mpr valid
    rw [empty] at listed
    cases listed
  · intro never
    have invalid : ∀ sessionId, (t.validateSession now sessionId).1 = none := by
      intro sessionId
      by_contra valid
      exact never ⟨sessionId, (validateSession_iff run last).mp valid⟩
    refine ⟨fun username _ sessionId => ?_, fun sessionId => ?_⟩
    · simp [empty, invalid]
    · simp [empty]

end Listing

/-- The entries after the session of Bob was created. -/
def entriesOfBob : SessionEntries :=
  [((initialized (ascii "c")).sessionKey (List.replicate 32 (hexDigit 7)),
    (sessionValue (ascii "bob") (ascii "web"), seconds 24))]

theorem entriesOfBob_iterates :
    (runCalls [] (initialized (ascii "c")) sessionOfBob).2.Iterates entriesOfBob := by
  have sessions : (runCalls [] (initialized (ascii "c")) sessionOfBob).2.sessionCache =
      Function.update (fun _ => none)
        ((initialized (ascii "c")).sessionKey (List.replicate 32 (hexDigit 7)))
        (some (sessionValue (ascii "bob") (ascii "web"), seconds 24)) := by rfl
  refine ⟨List.nodup_singleton _, fun key kept => ?_⟩
  rw [sessions, entriesOfBob, List.mem_singleton, Prod.mk.injEq, Function.update_apply]
  split
  · rename_i same
    exact ⟨fun there => congrArg some there.2.symm, fun there => ⟨same, (Option.some.inj there).symm⟩⟩
  · rename_i other
    exact ⟨fun there => absurd there.1 other, fun there => by cases there⟩

theorem listing_agrees_later :
    ListingAgrees (seconds 25) entriesOfBob
      (runCalls [] (initialized (ascii "c")) sessionOfBob).2 := by
  let past := (runCalls [] (initialized (ascii "c")) sessionOfBob).1
  have plain : ∀ e ∈ past, ∀ username clientInfo digits,
      e.call = .createSession username clientInfo digits → Bytes.colon ∉ username := by
    intro e inPast username clientInfo digits call
    obtain rfl := List.mem_singleton.mp inPast
    cases call
    decide
  have last : ∀ e ∈ past, e.time ≤ seconds 25 := by decide +kernel
  have start : ∀ e ∈ past, e.time = 0 := by decide +kernel
  refine (listing_agrees_iff sessionOfBob_run plain last entriesOfBob_iterates).mpr ?_
  intro ⟨sessionId, username, clientInfo, time, created, inTime⟩
  obtain ⟨e, inPast, change⟩ := latest_mem created
  rw [sessionChange_created change, start e inPast] at inTime
  exact absurd inTime (by decide)

/-- A session that has just been created is valid and not in the list. -/
theorem session_unlisted : ∃ past t entries sessionId, Run (initialized (ascii "c")) past t ∧
    t.Iterates entries ∧ (t.validateSession 0 sessionId).1 = some (ascii "bob") ∧
    sessionId ∉ t.getActiveSessions 0 entries (ascii "bob") ∧
    t.getActiveSessions 0 entries [] = [] := by
  exact ⟨_, _, entriesOfBob, List.replicate 32 (hexDigit 7), sessionOfBob_run,
    entriesOfBob_iterates, by decide +kernel, by decide +kernel, by decide +kernel⟩

end DistributedAuthManager

end EmailServer.Auth
