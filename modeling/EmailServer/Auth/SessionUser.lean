import EmailServer.Auth.SessionLifetime

/-! # Whose session it is

A session is kept as the name of its user, a colon and the client info. Both copies are
cut at the first colon when the user is asked for, so that the name comes back whole only
if there is no colon in it.
-/

namespace EmailServer.Auth

namespace DistributedAuthManager

open EmailServer.Bytes

section User

variable {s t : DistributedAuthManager} {now : Int} {sessionId username clientInfo : Bytes}
  {past : List Event} {entry : Entry Bytes}

theorem sessionValue_name :
    (sessionValue username clientInfo).takeWhile (· != colon) = username ↔ colon ∉ username := by
  have separator : ascii ":" = [colon] := by decide
  rw [sessionValue, separator, List.append_assoc, List.singleton_append]
  constructor
  · intro same member
    rw [← same] at member
    simpa using List.mem_takeWhile_imp member
  · intro clean
    rw [List.takeWhile_append_of_pos (bne_of_not_mem clean)]
    simp

/-- What the cluster answers while a session lives. -/
theorem validateInRedis_living (keeps : s.Keeps sessionId entry) {value : Bytes}
    (alive : entry.read now = some value) :
    (s.validateInRedis now sessionId).1 =
      if value.takeWhile (· != colon) = [] then none else some (value.takeWhile (· != colon)) := by
  have inside := read_colon keeps alive
  obtain ⟨⟨value', expiry⟩, living, rfl⟩ := Option.map_eq_some_iff.mp alive
  obtain ⟨found, inTime⟩ : entry = some (value', expiry) ∧ now ≤ expiry := by
    simpa [Option.filter_eq_some_iff] using living
  have stored := keeps.stored
  rw [found] at stored
  have read : s.getSessionFromRedis now sessionId =
      (value'.takeWhile (· != colon), (value'.dropWhile (· != colon)).drop 1) := by
    simp only [getSessionFromRedis, stored]
    rw [if_neg (by omega), cut, if_pos inside]
    rfl
  simp only [validateInRedis, read]
  split <;> rfl

/-- As long as a session lives, the call and its second half, which asks the cluster, both
    name the user it was created for, if and only if the name has no colon in it. -/
theorem session_user_iff {clusterId : Bytes} (run : Run (initialized clusterId) past t)
    (last : ∀ e ∈ past, e.time ≤ now) {time : Int}
    (created : latest (Event.sessionChange sessionId) past = some (.created username clientInfo time))
    (living : now ≤ time + seconds SESSION_TIMEOUT_COUNT) (nonempty : username ≠ []) :
    (t.validateSession now sessionId).1 = some username ∧
        (t.validateInRedis now sessionId).1 = some username ↔ colon ∉ username := by
  have named : sessionId ≠ [] := by
    rintro rfl
    rw [sessionChange_unnamed] at created
    cases created
  have keeps := run_keeps run sessionId
  have alive := (session_read run last).mpr ⟨username, clientInfo, time, created, living, rfl⟩
  rw [validateSession_eq run.cluster.2 named keeps, validateInRedis_living keeps alive, alive,
    ← @sessionValue_name username clientInfo]
  constructor
  · intro ⟨cached, _⟩
    exact Option.some.inj cached
  · intro same
    simp [same, nonempty]

end User

/-- Bob's session is Bob's. -/
theorem session_user_bob :
    ((runCalls [] (initialized (ascii "c")) sessionOfBob).2.validateSession (seconds 10)
      (List.replicate 32 (hexDigit 7))).1 = some (ascii "bob") ∧
    ((runCalls [] (initialized (ascii "c")) sessionOfBob).2.validateInRedis (seconds 10)
      (List.replicate 32 (hexDigit 7))).1 = some (ascii "bob") := by
  let past := (runCalls [] (initialized (ascii "c")) sessionOfBob).1
  let sessionId := List.replicate 32 (hexDigit 7)
  have created : latest (Event.sessionChange sessionId) past =
      some (.created (ascii "bob") (ascii "web") 0) := by decide +kernel
  have last : ∀ e ∈ past, e.time ≤ seconds 10 := by decide +kernel
  exact (session_user_iff sessionOfBob_run last created (by decide) (by decide)).mpr (by decide)

/-- One session of a user with a colon in the name. -/
def sessionOfAdmin : List (Clock × Call) :=
  [(⟨0, 0⟩, .createSession (ascii "alice:admin") (ascii "web") (Vector.replicate 32 (Fin.last 15)))]

theorem sessionOfAdmin_run :
    Run (initialized (ascii "c")) (runCalls [] (initialized (ascii "c")) sessionOfAdmin).1
      (runCalls [] (initialized (ascii "c")) sessionOfAdmin).2 := by
  apply Run.start.calls
  · intro e member
    cases member
  · exact List.pairwise_singleton _ _

/-- It is taken for a session of another user at once. -/
theorem admin_taken_for_alice : ∃ past t sessionId, Run (initialized (ascii "c")) past t ∧
    (∀ e ∈ past, e.time ≤ 0) ∧
    latest (Event.sessionChange sessionId) past =
      some (.created (ascii "alice:admin") (ascii "web") 0) ∧
    (t.validateSession 0 sessionId).1 = some (ascii "alice") ∧
    (t.validateInRedis 0 sessionId).1 = some (ascii "alice") ∧
    ascii "alice" ≠ ascii "alice:admin" :=
  ⟨_, _, List.replicate 32 (hexDigit 15), sessionOfAdmin_run, by decide +kernel, by decide +kernel,
    by decide +kernel, by decide +kernel, by decide⟩

end DistributedAuthManager

end EmailServer.Auth
