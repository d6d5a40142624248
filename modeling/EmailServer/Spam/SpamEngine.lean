import Mathlib.Algebra.BigOperators.Group.List.Basic
import Mathlib.Algebra.Order.Ring.Rat
import EmailServer.AntiSpam.Dkim
import EmailServer.AntiSpam.DmarcEvaluator
import EmailServer.AntiSpam.Spf
import EmailServer.ThreatIntel.HashFindings

/-! # The spam engine

Rules add tests with scores, and the sum decides. The reputation of the sender is looked up
for a message that has been found to be spam already. Scores are rational numbers, and the
metrics are left out.
-/

namespace EmailServer.Spam

open AntiSpam ThreatIntel

structure AuthResultsState where
  spf : SpfCheckResult := {}
  dkim : DkimAuthResult := {}
  dmarc : DmarcResult := {}
  deriving DecidableEq

/-- With the verdict. -/
structure SpamResult extends ThreatIntel.SpamResult where
  isSpam : Bool := false

def add (r : SpamResult) (name : Bytes) (score : Rat) : SpamResult :=
  { r with toSpamResult := r.toSpamResult.add ⟨name, score⟩ }

/-! ## The rules, as they are applied -/

def applyAuthRules (r : SpamResult) (auth : AuthResultsState) : SpamResult :=
  let r := match auth.spf.result with
    | .fail => add r (ascii "SPF_FAIL") (5 / 2)
    | .pass => add r (ascii "SPF_PASS") (-1 / 2)
    | _ => r
  let r := match auth.dkim.result with
    | .none => add r (ascii "DKIM_NONE") 1
    | .fail => add r (ascii "DKIM_FAIL") 2
    | .pass => add r (ascii "DKIM_PASS") (-7 / 10)
    | _ => r
  if auth.dmarc.result = .fail ∧ auth.dmarc.policy = .reject then add r (ascii "DMARC_FAIL") 3 else r

def applyHeaderRules (r : SpamResult) (headers : Bytes) : SpamResult :=
  if Bytes.contains (ascii "Reply-To:") headers ∧ Bytes.contains (ascii "From:") headers then
    add r (ascii "REPLY_TO_MISMATCH") 1
  else r

def applyBodyRules (r : SpamResult) (body : Bytes) : SpamResult :=
  let b := Bytes.toLower body
  let r := if Bytes.contains (ascii "free money") b then add r (ascii "FREE_MONEY") 2 else r
  if Bytes.contains (ascii "click here") b then add r (ascii "CLICK_HERE") (3 / 2) else r

/-- `reputation` is what the store of the sender reputations answers. -/
def applySenderIntel (reputation : Bytes → Int) (r : SpamResult) (senderDomain : Bytes) : SpamResult :=
  let score := reputation senderDomain
  if 0 < score then add r (ascii "SENDER_REPUTATION") (score * 2) else r

structure SpamEngine where
  requiredScore : Rat := 5

def SpamEngine.evaluate (engine : SpamEngine) (reputation : Bytes → Int) (auth : AuthResultsState)
    (headers body : Bytes) : SpamResult :=
  let r := applyBodyRules (applyHeaderRules (applyAuthRules {} auth) headers) body
  let r := { r with isSpam := decide (engine.requiredScore ≤ r.totalScore) }
  if r.isSpam ∧ auth.dkim.headerDomain ≠ [] then
    applySenderIntel reputation r auth.dkim.headerDomain
  else r

/-! ## The rules, as a table -/

/-- What a rule sees of a message. -/
structure Message where
  auth : AuthResultsState
  headers : Bytes
  body : Bytes

/-- A rule gives its test to the messages it applies to. -/
structure Rule where
  test : SpamTest
  applies : Message → Bool

def authRules : List Rule :=
  [⟨⟨ascii "SPF_FAIL", 5 / 2⟩, fun m => m.auth.spf.result == .fail⟩,
    ⟨⟨ascii "SPF_PASS", -1 / 2⟩, fun m => m.auth.spf.result == .pass⟩,
    ⟨⟨ascii "DKIM_NONE", 1⟩, fun m => m.auth.dkim.result == .none⟩,
    ⟨⟨ascii "DKIM_FAIL", 2⟩, fun m => m.auth.dkim.result == .fail⟩,
    ⟨⟨ascii "DKIM_PASS", -7 / 10⟩, fun m => m.auth.dkim.result == .pass⟩,
    ⟨⟨ascii "DMARC_FAIL", 3⟩, fun m => m.auth.dmarc.result == .fail && m.auth.dmarc.policy == .reject⟩]

def headerRules : List Rule :=
  [⟨⟨ascii "REPLY_TO_MISMATCH", 1⟩, fun m =>
    Bytes.contains (ascii "Reply-To:") m.headers && Bytes.contains (ascii "From:") m.headers⟩]

def bodyRules : List Rule :=
  [⟨⟨ascii "FREE_MONEY", 2⟩, fun m => Bytes.contains (ascii "free money") (Bytes.toLower m.body)⟩,
    ⟨⟨ascii "CLICK_HERE", 3 / 2⟩, fun m => Bytes.contains (ascii "click here") (Bytes.toLower m.body)⟩]

/-- The tests of the rules that apply. -/
def applicable (rules : List Rule) (m : Message) : List SpamTest :=
  (rules.filter (·.applies m)).map (·.test)

def sum (tests : List SpamTest) : Rat := (tests.map (·.score)).sum

/-- What the rules find in a message. -/
def ruleScore (m : Message) : Rat := sum (applicable (authRules ++ headerRules ++ bodyRules) m)

/-- What a positive reputation of the DKIM domain counts. -/
def senderScore (reputation : Bytes → Int) (m : Message) : Rat :=
  if m.auth.dkim.headerDomain ≠ [] ∧ 0 < reputation m.auth.dkim.headerDomain then
    reputation m.auth.dkim.headerDomain * 2
  else 0

/-- The result with these tests. -/
def addAll (r : SpamResult) (tests : List SpamTest) : SpamResult :=
  tests.foldl (fun r test => add r test.name test.score) r

section Rules

variable {r : SpamResult} {m : Message}

theorem applicable_cons {rule : Rule} {rules : List Rule} : applicable (rule :: rules) m =
    if rule.applies m then rule.test :: applicable rules m else applicable rules m := by
  cases holds : rule.applies m <;> simp [applicable, holds]

theorem applicable_append {rules more : List Rule} :
    applicable (rules ++ more) m = applicable rules m ++ applicable more m := by
  simp [applicable]

theorem addAll_append {tests more : List SpamTest} :
    addAll r (tests ++ more) = addAll (addAll r tests) more := List.foldl_append

theorem applyAuthRules_eq : applyAuthRules r m.auth = addAll r (applicable authRules m) := by
  obtain ⟨⟨⟨spf, from_⟩, ⟨dkim, domain⟩, dmarc⟩, headers, body⟩ := m
  by_cases rejects : dmarc.result = .fail ∧ dmarc.policy = .reject
  · cases spf <;> cases dkim <;> simp [applyAuthRules, authRules, applicable, addAll, rejects]
  · cases spf <;> cases dkim <;> simp [applyAuthRules, authRules, applicable, addAll, rejects]

theorem applyHeaderRules_eq :
    applyHeaderRules r m.headers = addAll r (applicable headerRules m) := by
  rw [headerRules, applicable_cons]
  by_cases both : Bytes.contains (ascii "Reply-To:") m.headers ∧ Bytes.contains (ascii "From:") m.headers
  · simp [applyHeaderRules, both, addAll, applicable]
  · simp [applyHeaderRules, both, addAll, applicable]

theorem applyBodyRules_eq : applyBodyRules r m.body = addAll r (applicable bodyRules m) := by
  unfold applyBodyRules
  rw [bodyRules, applicable_cons, applicable_cons]
  dsimp only
  split <;> split <;> simp [addAll, applicable]

end Rules

/-! ## The score is the sum of the tests -/

/-- The score agrees with the tests. -/
def SpamResult.Agrees (r : SpamResult) : Prop := r.totalScore = sum r.tests

section Agrees

variable {r : SpamResult}

theorem add_tests {name : Bytes} {score : Rat} : (add r name score).tests = r.tests ++ [⟨name, score⟩] :=
  rfl

theorem SpamResult.Agrees.add {name : Bytes} {score : Rat} (agrees : r.Agrees) :
    (add r name score).Agrees := by
  have total : (Spam.add r name score).totalScore = r.totalScore + score := rfl
  rw [SpamResult.Agrees, total, add_tests, agrees]
  simp [sum]

theorem SpamResult.Agrees.addAll {tests : List SpamTest} (agrees : r.Agrees) :
    (addAll r tests).Agrees := by
  induction tests generalizing r with
  | nil => exact agrees
  | cons test tests ih => exact ih agrees.add

theorem addAll_tests {tests : List SpamTest} : (addAll r tests).tests = r.tests ++ tests := by
  induction tests generalizing r with
  | nil => simp [addAll]
  | cons test tests ih =>
      change (addAll (add r test.name test.score) tests).tests = _
      rw [ih, add_tests]
      simp

theorem SpamResult.Agrees.sender {reputation : Bytes → Int} {senderDomain : Bytes} (agrees : r.Agrees) :
    (applySenderIntel reputation r senderDomain).Agrees := by
  unfold applySenderIntel
  dsimp only
  split
  · exact agrees.add
  · exact agrees

end Agrees

/-! ## The verdict -/

section Verdict

variable {reputation : Bytes → Int} {m : Message}

/-- What the rules make of a message. -/
def ruled (m : Message) : SpamResult :=
  applyBodyRules (applyHeaderRules (applyAuthRules {} m.auth) m.headers) m.body

theorem ruled_eq :
    ruled m = addAll {} (applicable (authRules ++ headerRules ++ bodyRules) m) := by
  rw [ruled, applyAuthRules_eq, applyHeaderRules_eq, applyBodyRules_eq, applicable_append,
    applicable_append, addAll_append, addAll_append]

theorem ruled_agrees : (ruled m).Agrees := by
  have empty : SpamResult.Agrees {} := rfl
  rw [ruled_eq]
  exact empty.addAll

theorem ruled_totalScore : (ruled m).totalScore = ruleScore m := by
  rw [ruled_agrees, ruled_eq, addAll_tests, ruleScore]
  rfl

theorem applySenderIntel_isSpam {r : SpamResult} {senderDomain : Bytes} :
    (applySenderIntel reputation r senderDomain).isSpam = r.isSpam := by
  unfold applySenderIntel
  dsimp only
  split <;> rfl

theorem evaluate_eq {engine : SpamEngine} :
    engine.evaluate reputation m.auth m.headers m.body =
      let r := { ruled m with isSpam := decide (engine.requiredScore ≤ ruleScore m) }
      if engine.requiredScore ≤ ruleScore m ∧ m.auth.dkim.headerDomain ≠ [] then
        applySenderIntel reputation r m.auth.dkim.headerDomain
      else r := by
  rw [← ruled_totalScore]
  simp only [SpamEngine.evaluate, ruled, decide_eq_true_eq]
  congr

/-- The verdict is that of the rules: the sender counts for nothing in it. -/
theorem evaluate_isSpam {engine : SpamEngine} :
    (engine.evaluate reputation m.auth m.headers m.body).isSpam = true ↔
      engine.requiredScore ≤ ruleScore m := by
  rw [evaluate_eq]
  dsimp only
  split
  · rw [applySenderIntel_isSpam, decide_eq_true_eq]
  · rw [decide_eq_true_eq]

theorem evaluate_agrees {engine : SpamEngine} :
    (engine.evaluate reputation m.auth m.headers m.body).Agrees := by
  have decided : ({ ruled m with
      isSpam := decide (engine.requiredScore ≤ ruleScore m) } : SpamResult).Agrees := ruled_agrees
  rw [evaluate_eq]
  dsimp only
  split
  · exact decided.sender
  · exact decided

theorem senderScore_nonneg : 0 ≤ senderScore reputation m := by
  unfold senderScore
  split
  case isTrue known =>
    have positive : (0 : Rat) < reputation m.auth.dkim.headerDomain := by exact_mod_cast known.2
    exact (mul_pos positive two_pos).le
  case isFalse => exact le_rfl

/-- The score is always the sum of the tests. The verdict counts all the evidence except where the
sender would have decided: the rules stay below the threshold, and his reputation passes it. -/
theorem verdict_iff {engine : SpamEngine} :
    let r := engine.evaluate reputation m.auth m.headers m.body
    r.totalScore = sum r.tests ∧
      ((r.isSpam = true ↔ engine.requiredScore ≤ ruleScore m + senderScore reputation m) ↔
        ¬ (ruleScore m < engine.requiredScore ∧
          engine.requiredScore ≤ ruleScore m + senderScore reputation m)) := by
  refine ⟨evaluate_agrees, ?_⟩
  rw [evaluate_isSpam, ← not_le]
  have more : engine.requiredScore ≤ ruleScore m →
      engine.requiredScore ≤ ruleScore m + senderScore reputation m := fun enough =>
    le_add_of_le_of_nonneg enough senderScore_nonneg
  tauto

/-- SPF and DKIM fail for a message from a domain of bad reputation. -/
def failing : Message where
  auth := { spf := { result := .fail }, dkim := { result := .fail, headerDomain := ascii "bad.example" } }
  headers := ascii "From: a@bad.example"
  body := ascii "hello"

/-- Four and a half of the rules and two of the sender are more than five. -/
theorem failing_delivered :
    (SpamEngine.evaluate {} (fun _ => 1) failing.auth failing.headers failing.body).isSpam = false ∧
      SpamEngine.requiredScore {} ≤ ruleScore failing + senderScore (fun _ => 1) failing := by
  decide +kernel

end Verdict

end EmailServer.Spam
