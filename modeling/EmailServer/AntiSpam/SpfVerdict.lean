import EmailServer.AntiSpam.Spf

/-! # The SPF verdict that is reported

The evaluation follows redirects to the record that decides. Its result is cast by its
value into an enumeration with another order, where only the errors are in the same place.
-/

namespace EmailServer.AntiSpam

open EmailServer.Bytes

variable {lookupTxt : Bytes → List Bytes} {domain : Bytes} {code : SpfResultCode} {left : Nat}

/-! ## Redirects -/

/-- What the records of a domain come to. -/
inductive SpfAnswer where
  | verdict (code : SpfResultCode)
  | redirect (target : Bytes)

def SpfRecord.answer (record : SpfRecord) : SpfAnswer :=
  match firstAll record, record.redirect with
  | some mech, _ => .verdict (mapQ mech.qualifier)
  | none, some target => .redirect target
  | none, none => .verdict .neutral

def answer (lookupTxt : Bytes → List Bytes) (domain : Bytes) : Option SpfAnswer :=
  match spfRecords lookupTxt domain with
  | [] => some (.verdict .none)
  | [txt] => (SpfParser.parse txt).map SpfRecord.answer
  | _ => some (.verdict .permError)

/-- Where the record of a domain redirects to. -/
def redirectOf (lookupTxt : Bytes → List Bytes) (domain : Bytes) : Option Bytes :=
  match answer lookupTxt domain with
  | some (.redirect target) => some target
  | _ => none

/-- The domain after so many redirects. -/
def redirected (lookupTxt : Bytes → List Bytes) : Nat → Bytes → Option Bytes
  | 0, domain => some domain
  | n + 1, domain => (redirectOf lookupTxt domain).bind (redirected lookupTxt n)

theorem redirectOf_some {target : Bytes} :
    redirectOf lookupTxt domain = some target ↔
      answer lookupTxt domain = some (.redirect target) := by
  unfold redirectOf
  split
  · rename_i found
    simp [found]
  · rename_i other
    simp only [reduceCtorEq, false_iff]
    exact other target

theorem evaluateWith_answer : SpfEvaluator.evaluateWith lookupTxt (left + 1) domain =
    match answer lookupTxt domain with
    | none => none
    | some (.verdict code) => some code
    | some (.redirect target) => SpfEvaluator.evaluateWith lookupTxt left target := by
  rw [SpfEvaluator.evaluateWith, answer]
  rcases spfRecords lookupTxt domain with _ | ⟨txt, _ | ⟨second, rest⟩⟩
  · rfl
  · cases parsed : SpfParser.parse txt with
    | none => simp [parsed]
    | some record =>
        simp only [parsed, Option.map_some, SpfRecord.answer]
        cases firstAll record with
        | some mech => rfl
        | none => cases record.redirect <;> rfl
  · rfl

theorem evaluateWith_succ :
    SpfEvaluator.evaluateWith lookupTxt (left + 1) domain = some code ↔
      answer lookupTxt domain = some (.verdict code) ∨ ∃ target,
        redirectOf lookupTxt domain = some target ∧
          SpfEvaluator.evaluateWith lookupTxt left target = some code := by
  simp only [redirectOf_some, evaluateWith_answer]
  rcases answer lookupTxt domain with _ | ⟨_ | _⟩ <;> simp

/-- The evaluation gives the verdict of the domain where the redirects end, if that is
    among the first, and an error if they go on. -/
theorem evaluateWith_iff : SpfEvaluator.evaluateWith lookupTxt left domain = some code ↔
    (∃ n < left, ∃ last, redirected lookupTxt n domain = some last ∧
      answer lookupTxt last = some (.verdict code)) ∨
    (code = .permError ∧ ∃ last, redirected lookupTxt left domain = some last) := by
  induction left generalizing domain with
  | zero => simp [SpfEvaluator.evaluateWith, redirected, eq_comm]
  | succ left ih =>
      rw [evaluateWith_succ]
      constructor
      · rintro (here | ⟨target, redirects, later⟩)
        · exact .inl ⟨0, by omega, domain, rfl, here⟩
        · rcases ih.mp later with ⟨n, few, last, path, verdict⟩ | ⟨error, last, path⟩
          · exact .inl ⟨n + 1, by omega, last, by simp [redirected, redirects, path], verdict⟩
          · exact .inr ⟨error, last, by simp [redirected, redirects, path]⟩
      · rintro (⟨n, few, last, path, verdict⟩ | ⟨error, last, path⟩)
        · cases n with
          | zero =>
              obtain rfl := Option.some.inj path
              exact .inl verdict
          | succ n =>
              obtain ⟨target, redirects, path⟩ := Option.bind_eq_some_iff.mp path
              exact .inr ⟨target, redirects, ih.mpr (.inl ⟨n, by omega, last, path, verdict⟩)⟩
        · obtain ⟨target, redirects, path⟩ := Option.bind_eq_some_iff.mp path
          exact .inr ⟨target, redirects, ih.mpr (.inr ⟨error, last, path⟩)⟩

/-! ## What is reported -/

/-- The result of the same name. -/
def SpfResult.named : SpfResultCode → SpfResult
  | .pass => .pass
  | .fail => .fail
  | .softFail => .softFail
  | .neutral => .neutral
  | .none => .none
  | .tempError => .tempError
  | .permError => .permError

/-- A domain among the first ten of the redirects has these records. -/
def Reaches (lookupTxt : Bytes → List Bytes) (domain : Bytes) (P : List Bytes → Prop) : Prop :=
  ∃ n < 10, ∃ last, redirected lookupTxt n domain = some last ∧ P (spfRecords lookupTxt last)

/-- The record finally used has a first `all` with the qualifier. -/
def FinalAll (lookupTxt : Bytes → List Bytes) (domain : Bytes) (q : SpfQualifier) : Prop :=
  Reaches lookupTxt domain fun records => ∃ txt record mech, records = [txt] ∧
    SpfParser.parse txt = some record ∧ firstAll record = some mech ∧ mech.qualifier = q

/-- The result is the outcome of the evaluation. -/
structure Faithful (lookupTxt : Bytes → List Bytes) (domain : Bytes) (result : SpfResult) : Prop where
  pass : result = .pass → FinalAll lookupTxt domain .plus
  fail : result = .fail → FinalAll lookupTxt domain .minus
  none : result = .none → Reaches lookupTxt domain (· = [])
  same : ∃ code, SpfEvaluator.evaluate lookupTxt domain = some code ∧ result = .named code

/-- The redirects come to several records, or lead on after ten lookups. -/
def EndsInPermError (lookupTxt : Bytes → List Bytes) (domain : Bytes) : Prop :=
  Reaches lookupTxt domain (1 < ·.length) ∨ ∃ last, redirected lookupTxt 10 domain = some last

theorem record_answer (record : SpfRecord) :
    record.answer ≠ .verdict .permError ∧ record.answer ≠ .verdict .tempError := by
  unfold SpfRecord.answer
  split
  · rename_i mech _
    cases mech.qualifier <;> simp [mapQ]
  · simp
  · simp

theorem answer_permError :
    answer lookupTxt domain = some (.verdict .permError) ↔
      1 < (spfRecords lookupTxt domain).length := by
  unfold answer
  rcases spfRecords lookupTxt domain with _ | ⟨txt, _ | ⟨second, rest⟩⟩
  · simp
  · simp [record_answer]
  · simp

theorem answer_ne_tempError : answer lookupTxt domain ≠ some (.verdict .tempError) := by
  unfold answer
  rcases spfRecords lookupTxt domain with _ | ⟨txt, _ | ⟨second, rest⟩⟩
  · simp
  · simp [record_answer]
  · simp

theorem evaluate_permError :
    SpfEvaluator.evaluate lookupTxt domain = some .permError ↔ EndsInPermError lookupTxt domain := by
  simp only [SpfEvaluator.evaluate, evaluateWith_iff, answer_permError, true_and, EndsInPermError,
    Reaches]

theorem evaluate_ne_tempError : SpfEvaluator.evaluate lookupTxt domain ≠ some .tempError := by
  intro temporary
  rcases evaluateWith_iff.mp temporary with ⟨_, _, last, _, verdict⟩ | ⟨error, _⟩
  · exact answer_ne_tempError verdict
  · cases error

theorem cast_eq_named :
    SpfResult.cast code = .named code ↔ code = .permError ∨ code = .tempError := by
  cases code <;> decide

/-- When the check returns, its result is the outcome of the evaluation if and only if the
    redirects end in a permanent error. -/
theorem verdict_faithful_iff {ip mailFrom heloDomain : Bytes} {r : SpfCheckResult}
    (returns : SpfChecker.check lookupTxt ip mailFrom heloDomain = some r) :
    Faithful lookupTxt (SpfChecker.senderDomain mailFrom heloDomain) r.result ↔
      EndsInPermError lookupTxt (SpfChecker.senderDomain mailFrom heloDomain) := by
  obtain ⟨code, evaluated, rfl⟩ := Option.map_eq_some_iff.mp returns
  constructor
  · intro faithful
    obtain ⟨code', evaluated', same⟩ := faithful.same
    obtain rfl := Option.some.inj (evaluated.symm.trans evaluated')
    rcases cast_eq_named.mp same with rfl | rfl
    · exact evaluate_permError.mp evaluated
    · exact absurd evaluated evaluate_ne_tempError
  · intro ends
    obtain rfl := Option.some.inj (evaluated.symm.trans (evaluate_permError.mpr ends))
    exact { pass := nofun, fail := nofun, none := nofun, same := ⟨_, evaluated, rfl⟩ }

/-- A domain with two records is reported as it is evaluated. -/
theorem verdict_faithful_iff_two :
    Faithful (fun _ => [ascii "v=spf1 -all", ascii "v=spf1 +all"])
      (SpfChecker.senderDomain (ascii "<alice@example.com>") (ascii "example.net")) .permError := by
  have returns : SpfChecker.check (fun _ => [ascii "v=spf1 -all", ascii "v=spf1 +all"])
      (ascii "192.0.2.1") (ascii "<alice@example.com>") (ascii "example.net") =
        some ⟨.permError, ascii "alice@example.com"⟩ := by decide +kernel
  exact (verdict_faithful_iff returns).mpr (.inl ⟨0, by decide, _, rfl, by decide +kernel⟩)

/-- A rejected sender is reported as a pass. -/
theorem rejected_passes : ∃ lookupTxt r,
    SpfEvaluator.evaluate lookupTxt
      (SpfChecker.senderDomain (ascii "<alice@example.com>") (ascii "example.net")) = some .fail ∧
    SpfChecker.check lookupTxt (ascii "192.0.2.1") (ascii "<alice@example.com>")
      (ascii "example.net") = some r ∧ r.result = .pass ∧
    ¬ Faithful lookupTxt
      (SpfChecker.senderDomain (ascii "<alice@example.com>") (ascii "example.net")) r.result := by
  have rejected : SpfEvaluator.evaluate (fun _ => [ascii "v=spf1 -all"])
      (SpfChecker.senderDomain (ascii "<alice@example.com>") (ascii "example.net")) = some .fail := by
    decide +kernel
  refine ⟨_, ⟨.pass, ascii "alice@example.com"⟩, rejected, by decide +kernel, rfl, ?_⟩
  intro faithful
  obtain ⟨code, evaluated, same⟩ := faithful.same
  obtain rfl := Option.some.inj (rejected.symm.trans evaluated)
  cases same

end EmailServer.AntiSpam
