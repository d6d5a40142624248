import EmailServer.Auth.AuthManager

/-! # The audit log

Every record of an authentication is one line with the time and the level, and the name of the
user in it as the client gave it. A line feed in the name ends the line, and what stands behind
it begins a line of the client's own. The copy for the main log is left out.
-/

namespace EmailServer.Auth

open EmailServer.Bytes

/-- What `std::localtime` gives, and the milliseconds. -/
structure LocalTime where
  year : Nat
  month : Nat
  day : Nat
  hour : Nat
  minute : Nat
  second : Nat
  ms : Nat

/-- With zeros up to the width. -/
def padded (width n : Nat) : Bytes :=
  List.replicate (width - (toDecimal n).length) 48 ++ toDecimal n

namespace AuditLog

/-- `%Y-%m-%d %H:%M:%S`, a dot and the milliseconds. -/
def getTimestamp (now : LocalTime) : Bytes :=
  toDecimal now.year ++ ascii "-" ++ padded 2 now.month ++ ascii "-" ++ padded 2 now.day ++
    ascii " " ++ padded 2 now.hour ++ ascii ":" ++ padded 2 now.minute ++ ascii ":" ++
    padded 2 now.second ++ ascii "." ++ padded 3 now.ms

/-- The file after a record. `opens` says whether it could be opened. -/
def writeLog (opens : Bool) (now : LocalTime) (level event details log : Bytes) : Bytes :=
  if !opens then log
  else
    log ++ (getTimestamp now ++ ascii " [" ++ level ++ ascii "] " ++ event ++
      (if details ≠ [] then ascii " | " ++ details else []) ++ [lf])

end AuditLog

/-- A call of the audit log in `AuthManager`. -/
inductive AuditCall where
  | logAuthSuccess (username : Bytes)
  | logAuthFailure (username reason : Bytes)
  deriving DecidableEq

namespace AuditCall

def username : AuditCall → Bytes
  | .logAuthSuccess username => username
  | .logAuthFailure username _ => username

def level : AuditCall → Bytes
  | .logAuthSuccess _ => ascii "INFO"
  | .logAuthFailure _ _ => ascii "WARN"

def event : AuditCall → Bytes
  | .logAuthSuccess _ => ascii "AUTH_SUCCESS"
  | .logAuthFailure _ _ => ascii "AUTH_FAILURE"

def details : AuditCall → Bytes
  | .logAuthSuccess username => ascii "user=" ++ username
  | .logAuthFailure username reason => ascii "user=" ++ username ++ ascii " reason=" ++ reason

/-- What the call makes of the file. -/
def run (opens : Bool) (now : LocalTime) (log : Bytes) (call : AuditCall) : Bytes :=
  AuditLog.writeLog opens now call.level call.event call.details log

end AuditCall

namespace AuthManager

/-- `validate` with its calls of the audit log. -/
def auditedValidate (ssl : OpenSsl) (users : Users) (user pass : Bytes) :
    Option Bool × List AuditCall :=
  match users user with
  | none => (some false, [.logAuthFailure user (ascii "USER_NOT_FOUND")])
  | some hash =>
      if !PasswordHash.isHashed hash then
        (some false, [.logAuthFailure user (ascii "PLAINTEXT_PASSWORD_BLOCKED")])
      else
        match PasswordHash.verify ssl pass hash with
        | none => (none, [])
        | some true => (some true, [.logAuthSuccess user])
        | some false => (some false, [.logAuthFailure user (ascii "INVALID_PASSWORD")])

/-- `authenticateSmtp` with its calls of the audit log. -/
def auditedAuthenticateSmtp (ssl : OpenSsl) (base64Decode : Bytes → Bytes) (users : Users)
    (args : Bytes) : Option (Bool × Option Bytes) × List AuditCall :=
  if args.take 6 ≠ ascii "PLAIN " then (some (false, none), [])
  else
    match plainCredentials (base64Decode (args.drop 6)) with
    | none => (some (false, none), [])
    | some (user, pass) =>
        let (answer, calls) := auditedValidate ssl users user pass
        (answer.map fun answer => (answer, some user), calls)

section Audited

variable {ssl : OpenSsl} {base64Decode : Bytes → Bytes} {users : Users} {args user pass : Bytes}
  {call : AuditCall}

theorem auditedValidate_fst :
    (auditedValidate ssl users user pass).1 = validate ssl users user pass := by
  unfold auditedValidate validate
  cases users user with
  | none => rfl
  | some hash =>
      dsimp only
      split
      · rfl
      · cases PasswordHash.verify ssl pass hash with
        | none => rfl
        | some answer => cases answer <;> rfl

theorem auditedAuthenticateSmtp_fst :
    (auditedAuthenticateSmtp ssl base64Decode users args).1 =
      authenticateSmtp ssl base64Decode users args := by
  unfold auditedAuthenticateSmtp authenticateSmtp
  split
  · rfl
  · cases plainCredentials (base64Decode (args.drop 6)) with
    | none => rfl
    | some credentials => exact congrArg (Option.map _) auditedValidate_fst

/-- What is recorded of a validation: the user's name as it was given, and for what reason it
failed. -/
theorem auditedValidate_calls (made : call ∈ (auditedValidate ssl users user pass).2) :
    call = .logAuthSuccess user ∨
      ∃ reason, lf ∉ reason ∧ call = .logAuthFailure user reason := by
  have clean : ∀ reason ∈ [ascii "USER_NOT_FOUND", ascii "PLAINTEXT_PASSWORD_BLOCKED",
      ascii "INVALID_PASSWORD"], lf ∉ reason := by decide
  unfold auditedValidate at made
  split at made
  · exact .inr ⟨_, clean _ (by simp), List.mem_singleton.mp made⟩
  · split at made
    · exact .inr ⟨_, clean _ (by simp), List.mem_singleton.mp made⟩
    · split at made
      · cases made
      · exact .inl (List.mem_singleton.mp made)
      · exact .inr ⟨_, clean _ (by simp), List.mem_singleton.mp made⟩

end Audited

end AuthManager

/-! ## Lines -/

section Lines

variable {now : LocalTime} {opens : Bool} {log : Bytes} {call : AuditCall}

theorem toDecimal_clean {n : Nat} : lf ∉ toDecimal n := fun member =>
  absurd (toDecimal_digit member).1 (by decide)

theorem padded_clean {width n : Nat} : lf ∉ padded width n := by
  simp only [padded, List.mem_append, List.mem_replicate, not_or]
  exact ⟨fun same => absurd same.2 (by decide), toDecimal_clean⟩

theorem getTimestamp_clean : lf ∉ AuditLog.getTimestamp now := by
  have dash : lf ∉ ascii "-" := by decide
  have blank : lf ∉ ascii " " := by decide
  have colon : lf ∉ ascii ":" := by decide
  have dot : lf ∉ ascii "." := by decide
  simp only [AuditLog.getTimestamp, List.mem_append, not_or]
  simp only [toDecimal_clean, padded_clean, dash, blank, colon, dot, not_false_eq_true, and_self]

/-- One line has been appended, and it begins with the time and the level. -/
def AppendsLine (now : LocalTime) (level before after : Bytes) : Prop :=
  ∃ rest, lf ∉ rest ∧
    after = before ++ (AuditLog.getTimestamp now ++ ascii " [" ++ level ++ ascii "] " ++ rest) ++ [lf]

theorem AuditCall.details_ne_nil : call.details ≠ [] := by
  cases call <;> simp [AuditCall.details, ascii]

theorem AuditCall.run_opened :
    call.run true now log =
      log ++ (AuditLog.getTimestamp now ++ ascii " [" ++ call.level ++ ascii "] " ++
        (call.event ++ ascii " | " ++ call.details)) ++ [lf] := by
  simp [AuditCall.run, AuditLog.writeLog, AuditCall.details_ne_nil]

theorem AuditCall.event_clean : lf ∉ call.event ++ ascii " | " := by
  cases call <;> simp only [AuditCall.event] <;> decide

theorem appendsLine_iff :
    AppendsLine now call.level log (call.run opens now log) ↔ opens = true ∧ lf ∉ call.details := by
  have event := call.event_clean
  constructor
  · rintro ⟨rest, clean, appended⟩
    cases opens with
    | false =>
        have short := congrArg List.length appended
        simp [AuditCall.run, AuditLog.writeLog] at short
    | true =>
        rw [AuditCall.run_opened] at appended
        rw [List.append_left_inj, List.append_right_inj, List.append_right_inj] at appended
        rw [← appended, List.mem_append, not_or] at clean
        exact ⟨rfl, clean.2⟩
  · rintro ⟨rfl, clean⟩
    refine ⟨call.event ++ ascii " | " ++ call.details, ?_, AuditCall.run_opened⟩
    rw [List.mem_append, not_or]
    exact ⟨event, clean⟩

end Lines

/-! ## What a client can write -/

section Forgery

variable {ssl : OpenSsl} {base64Decode : Bytes → Bytes} {users : Users} {args user pass : Bytes}
  {call : AuditCall} {now : LocalTime} {opens : Bool} {log : Bytes}

theorem auditedValidate_details (made : call ∈ (AuthManager.auditedValidate ssl users user pass).2) :
    lf ∉ call.details ↔ lf ∉ user := by
  have name : lf ∉ ascii "user=" := by decide
  have because : lf ∉ ascii " reason=" := by decide
  obtain rfl | ⟨reason, clean, rfl⟩ := AuthManager.auditedValidate_calls made
  · simp only [AuditCall.details, List.mem_append, not_or, name, not_false_eq_true, true_and]
  · simp only [AuditCall.details, List.mem_append, not_or, name, because, clean, not_false_eq_true,
      true_and, and_true]

/-- A call that `authenticateSmtp` makes for the name of a client appends one line of the server's
own exactly if the log can be opened and the name has no line feed in it. -/
theorem audit_line_iff (extracted :
      AuthManager.plainCredentials (base64Decode (args.drop 6)) = some (user, pass))
    (made : call ∈ (AuthManager.auditedAuthenticateSmtp ssl base64Decode users args).2) :
    AppendsLine now call.level log (call.run opens now log) ↔ opens = true ∧ lf ∉ user := by
  have validated : call ∈ (AuthManager.auditedValidate ssl users user pass).2 := by
    unfold AuthManager.auditedAuthenticateSmtp at made
    split at made
    · cases made
    · rw [extracted] at made
      exact made
  rw [appendsLine_iff, auditedValidate_details validated]

/-- A decoder of base64, and nothing that derives a key. -/
def plainSsl : OpenSsl where
  derive _ _ _ := none
  base64Decode text := (Base64.decode text).getD []

/-- A server without users. -/
theorem audit_line_bob : AppendsLine ⟨2026, 1, 2, 3, 4, 5, 6⟩ (ascii "WARN") []
      ((AuditCall.logAuthFailure (ascii "bob") (ascii "USER_NOT_FOUND")).run true
        ⟨2026, 1, 2, 3, 4, 5, 6⟩ []) :=
  (@audit_line_iff plainSsl plainSsl.base64Decode (fun _ => none) (ascii "PLAIN AGJvYgB4")
    (ascii "bob") (ascii "x") _ _ _ _ (by decide +kernel) (by decide +kernel)).mpr (by decide)

/-- The text of a record. -/
def AuditCall.line (now : LocalTime) (call : AuditCall) : Bytes :=
  AuditLog.getTimestamp now ++ ascii " [" ++ call.level ++ ascii "] " ++
    (call.event ++ ascii " | " ++ call.details)

/-- A name that holds the record of another user between the ends of two records of failures. -/
def forgery (now : LocalTime) (forged : AuditCall) (before after reason : Bytes) : Bytes :=
  before ++ ascii " reason=" ++ reason ++ [lf] ++ forged.line now ++ [lf] ++
    AuditLog.getTimestamp now ++ ascii " [WARN] AUTH_FAILURE | user=" ++ after

/-- A client writes every record he likes: the log is the one that three calls leave. -/
theorem forgery_run {forged : AuditCall} {before after reason : Bytes} :
    (AuditCall.logAuthFailure (forgery now forged before after reason) reason).run true now log =
      ([.logAuthFailure before reason, forged, .logAuthFailure after reason] : List AuditCall).foldl
        (fun log call => call.run true now log) log := by
  have middle : ascii "AUTH_FAILURE" ++ ascii " | " ++ ascii "user=" = ascii "AUTH_FAILURE | user=" := by
    decide
  have start : ascii " [" ++ ascii "WARN" ++ ascii "] " ++ ascii "AUTH_FAILURE | user=" =
      ascii " [WARN] AUTH_FAILURE | user=" := by
    decide
  simp only [List.foldl_cons, List.foldl_nil, AuditCall.run_opened, forgery, AuditCall.line, ← start,
    ← middle, AuditCall.level, AuditCall.event, AuditCall.details, List.append_assoc]

/-- A name with the record of a login of the administrator. -/
def forgedName : Bytes :=
  forgery ⟨2026, 1, 2, 3, 4, 5, 6⟩ (.logAuthSuccess (ascii "admin")) (ascii "a") (ascii "b")
    (ascii "USER_NOT_FOUND")

/-- It comes through the decoder and `validate` as it is, and one call appends three lines. -/
theorem forgedName_logged :
    (AuthManager.auditedAuthenticateSmtp plainSsl plainSsl.base64Decode (fun _ => none)
      (ascii "PLAIN " ++ Base64.encode (0 :: forgedName ++ 0 :: ascii "x"))).2 =
        [.logAuthFailure forgedName (ascii "USER_NOT_FOUND")] ∧
      ¬ AppendsLine ⟨2026, 1, 2, 3, 4, 5, 6⟩ (ascii "WARN") []
        ((AuditCall.logAuthFailure forgedName (ascii "USER_NOT_FOUND")).run true
          ⟨2026, 1, 2, 3, 4, 5, 6⟩ []) := by
  refine ⟨by decide +kernel, fun one => ?_⟩
  have clean := (appendsLine_iff.mp one).2
  exact clean (by decide +kernel)

/-! ## A run of the log -/

/-- A call with its time, and whether the file could be opened. -/
structure AuditStep where
  opens : Bool
  now : LocalTime
  call : AuditCall

def AuditStep.run (log : Bytes) (step : AuditStep) : Bytes := step.call.run step.opens step.now log

/-- How many lines a call adds. -/
def AuditStep.lines (step : AuditStep) : Nat :=
  if step.opens then step.call.details.count lf + 1 else 0

theorem AuditStep.run_count {step : AuditStep} :
    (step.run log).count lf = log.count lf + step.lines := by
  have stamp := List.count_eq_zero.mpr (@getTimestamp_clean step.now)
  have event := List.count_eq_zero.mpr step.call.event_clean
  have level : step.call.level.count lf = 0 := by
    cases step.call <;> simp only [AuditCall.level] <;> decide
  have fore : (ascii " [").count lf = 0 := by decide
  have aft : (ascii "] ").count lf = 0 := by decide
  cases opened : step.opens with
  | false => simp [AuditStep.run, AuditStep.lines, AuditCall.run, AuditLog.writeLog, opened]
  | true =>
      rw [AuditStep.run, opened, AuditCall.run_opened, AuditStep.lines, opened]
      simp only [List.count_append, stamp, event, level, fore, aft, List.count_singleton_self]
      simp only [List.count_append] at event
      simp only [if_true]
      omega

theorem audit_run_count {steps : List AuditStep} :
    (steps.foldl AuditStep.run log).count lf = log.count lf + (steps.map AuditStep.lines).sum := by
  induction steps generalizing log with
  | nil => rfl
  | cons step steps ih =>
      rw [List.foldl_cons, ih, AuditStep.run_count, List.map_cons, List.sum_cons, Nat.add_assoc]

end Forgery

end EmailServer.Auth
