import EmailServer.AntiSpam.SpfVerdict

/-! # Lookups of an SPF evaluation

The records of a domain can redirect anywhere, back to the domain as well. What ends the
evaluation is the counter of the evaluator.
-/

namespace EmailServer.AntiSpam

open EmailServer.Bytes

/-- A run of `evaluate` on an evaluator that has counted `dnsCount` lookups: the domains
    that are looked up, and the outcome, `none` for an exception. Nothing bounds the
    number of calls. -/
inductive SpfEvaluator.Runs (lookupTxt : Bytes → List Bytes) :
    Nat → Bytes → List Bytes → Option SpfResultCode → Prop where
  | limit {dnsCount : Nat} {domain : Bytes} : dnsCount + 1 > 10 →
      Runs lookupTxt dnsCount domain [] (some .permError)
  | throws {dnsCount : Nat} {domain : Bytes} : ¬ dnsCount + 1 > 10 → answer lookupTxt domain = none →
      Runs lookupTxt dnsCount domain [domain] none
  | verdict {dnsCount : Nat} {domain : Bytes} {code : SpfResultCode} : ¬ dnsCount + 1 > 10 →
      answer lookupTxt domain = some (.verdict code) →
      Runs lookupTxt dnsCount domain [domain] (some code)
  | redirect {dnsCount : Nat} {domain target : Bytes} {lookups : List Bytes}
      {outcome : Option SpfResultCode} : ¬ dnsCount + 1 > 10 →
      answer lookupTxt domain = some (.redirect target) →
      Runs lookupTxt (dnsCount + 1) target lookups outcome →
      Runs lookupTxt dnsCount domain (domain :: lookups) outcome

/-- The domain has one record, without `all` and with a redirect. -/
def Redirects (lookupTxt : Bytes → List Bytes) (domain target : Bytes) : Prop :=
  ∃ txt record, spfRecords lookupTxt domain = [txt] ∧ SpfParser.parse txt = some record ∧
    firstAll record = none ∧ record.redirect = some target

section Runs

variable {lookupTxt other : Bytes → List Bytes} {dnsCount left : Nat} {domain target : Bytes}
  {lookups lookups' : List Bytes} {outcome outcome' : Option SpfResultCode}

theorem answer_redirect_iff :
    answer lookupTxt domain = some (.redirect target) ↔ Redirects lookupTxt domain target := by
  unfold answer Redirects
  rcases spfRecords lookupTxt domain with _ | ⟨txt, _ | ⟨second, rest⟩⟩
  · simp
  · cases parsed : SpfParser.parse txt with
    | none => simp [parsed]
    | some record =>
        have read : (∃ txt' record', [txt] = [txt'] ∧ SpfParser.parse txt' = some record' ∧
            firstAll record' = none ∧ record'.redirect = some target) ↔
              firstAll record = none ∧ record.redirect = some target := by
          constructor
          · rintro ⟨txt', record', same, parsed', redirects⟩
            obtain ⟨rfl, -⟩ := List.cons.inj same
            rw [parsed] at parsed'
            cases parsed'
            exact redirects
          · exact fun redirects => ⟨txt, record, rfl, parsed, redirects⟩
        rw [read]
        simp only [parsed, Option.map_some, SpfRecord.answer, Option.some.injEq]
        cases firstAll record with
        | some mech => simp
        | none => cases record.redirect <;> simp
  · simp

theorem SpfEvaluator.Runs.unique (run : Runs lookupTxt dnsCount domain lookups outcome)
    (again : Runs lookupTxt dnsCount domain lookups' outcome') :
    lookups' = lookups ∧ outcome' = outcome := by
  induction run generalizing lookups' outcome' with
  | limit many =>
      cases again with
      | limit => exact ⟨rfl, rfl⟩
      | throws few | verdict few | redirect few => exact absurd many few
  | throws few answered =>
      cases again with
      | limit many => exact absurd many few
      | throws => exact ⟨rfl, rfl⟩
      | verdict _ answered' | redirect _ answered' =>
          rw [answered] at answered'
          cases answered'
  | verdict few answered =>
      cases again with
      | limit many => exact absurd many few
      | verdict _ answered' =>
          rw [answered] at answered'
          cases answered'
          exact ⟨rfl, rfl⟩
      | throws _ answered' | redirect _ answered' =>
          rw [answered] at answered'
          cases answered'
  | redirect few answered _ ih =>
      cases again with
      | limit many => exact absurd many few
      | redirect _ answered' later =>
          rw [answered] at answered'
          cases answered'
          obtain ⟨rfl, rfl⟩ := ih later
          exact ⟨rfl, rfl⟩
      | throws _ answered' | verdict _ answered' =>
          rw [answered] at answered'
          cases answered'

/-- A run looks up the domains of the redirects, one after another. -/
theorem SpfEvaluator.Runs.on_chain (run : Runs lookupTxt dnsCount domain lookups outcome) {n : Nat}
    {d : Bytes} (asked : lookups[n]? = some d) : redirected lookupTxt n domain = some d := by
  induction run generalizing n with
  | limit => simp at asked
  | throws | verdict =>
      cases n with
      | zero => simpa [redirected] using asked
      | succ n => simp at asked
  | redirect _ answered _ ih =>
      cases n with
      | zero => simpa [redirected] using asked
      | succ n =>
          have later := ih (by simpa using asked)
          rw [redirected, redirectOf_some.mpr answered]
          exact later

/-- A run has the outcome that the evaluation has with so many lookups left, and makes no more
    of them. -/
theorem SpfEvaluator.runs_evaluateWith (total : dnsCount + left = 10) :
    ∃ lookups, Runs lookupTxt dnsCount domain lookups (evaluateWith lookupTxt left domain) ∧
      lookups.length ≤ left := by
  induction left generalizing dnsCount domain with
  | zero => exact ⟨[], .limit (by omega), le_refl _⟩
  | succ left ih =>
      have few : ¬ dnsCount + 1 > 10 := by omega
      rw [evaluateWith_answer]
      cases answered : answer lookupTxt domain with
      | none => exact ⟨[domain], .throws few answered, by simp⟩
      | some reply =>
          cases reply with
          | verdict code => exact ⟨[domain], .verdict few answered, by simp⟩
          | redirect target =>
              obtain ⟨lookups, run, short⟩ := @ih (dnsCount + 1) target (by omega)
              exact ⟨domain :: lookups, .redirect few answered run, by simpa using short⟩

theorem answer_congr (same : other domain = lookupTxt domain) :
    answer other domain = answer lookupTxt domain := by
  rw [answer, answer, spfRecords, spfRecords, same]

theorem SpfEvaluator.Runs.agree (run : Runs lookupTxt dnsCount domain lookups outcome)
    (same : ∀ d ∈ lookups, other d = lookupTxt d) : Runs other dnsCount domain lookups outcome := by
  induction run with
  | limit many => exact .limit many
  | throws few answered =>
      exact .throws few ((answer_congr (same _ List.mem_cons_self)).trans answered)
  | verdict few answered =>
      exact .verdict few ((answer_congr (same _ List.mem_cons_self)).trans answered)
  | redirect few answered _ ih =>
      exact .redirect few ((answer_congr (same _ List.mem_cons_self)).trans answered)
        (ih fun d later => same d (List.mem_cons_of_mem _ later))

theorem redirected_succ {n : Nat} {d : Bytes} (path : redirected lookupTxt n domain = some d)
    (redirects : Redirects lookupTxt d target) :
    redirected lookupTxt (n + 1) domain = some target := by
  induction n generalizing domain with
  | zero =>
      obtain rfl := Option.some.inj path
      rw [redirected, redirectOf_some.mpr (answer_redirect_iff.mpr redirects)]
      rfl
  | succ n ih =>
      obtain ⟨next, first, path⟩ := Option.bind_eq_some_iff.mp path
      rw [redirected, first]
      exact ih path

end Runs

/-- On a new evaluator every evaluation ends, in one way only, after ten lookups at most, and as
    `evaluate` does. It ends in an error if the first ten domains all redirect, and it depends on
    nothing but the records of these. -/
theorem lookups_limited (lookupTxt : Bytes → List Bytes) (domain : Bytes) :
    ∃ lookups,
      SpfEvaluator.Runs lookupTxt 0 domain lookups (SpfEvaluator.evaluate lookupTxt domain) ∧
      (∀ lookups' outcome', SpfEvaluator.Runs lookupTxt 0 domain lookups' outcome' →
        lookups' = lookups ∧ outcome' = SpfEvaluator.evaluate lookupTxt domain) ∧
      lookups.length ≤ 10 ∧
      ((∀ n < 10, ∃ d target, redirected lookupTxt n domain = some d ∧
        Redirects lookupTxt d target) →
          SpfEvaluator.evaluate lookupTxt domain = some .permError) ∧
      ∀ other : Bytes → List Bytes,
        (∀ n < 10, ∀ d, redirected lookupTxt n domain = some d → other d = lookupTxt d) →
        SpfEvaluator.Runs other 0 domain lookups (SpfEvaluator.evaluate lookupTxt domain) := by
  obtain ⟨lookups, run, short⟩ :=
    @SpfEvaluator.runs_evaluateWith lookupTxt 0 10 domain rfl
  refine ⟨lookups, run, fun _ _ => run.unique, short, fun chain => ?_, fun other same => ?_⟩
  · obtain ⟨d, target, path, redirects⟩ := chain 9 (by omega)
    exact evaluateWith_iff.mpr (.inr ⟨rfl, target, redirected_succ path redirects⟩)
  · refine run.agree fun d asked => ?_
    obtain ⟨n, below, rfl⟩ := List.getElem_of_mem asked
    exact same n (by omega) _ (run.on_chain (List.getElem?_eq_getElem below))

end EmailServer.AntiSpam
