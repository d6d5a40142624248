import EmailServer.AntiSpam.PolicyDiscovery
import EmailServer.AntiSpam.SpfLookups
import EmailServer.AntiSpam.SpfSyntax
import Mathlib.Data.Nat.Find

/-! # Records that make an evaluation throw

What is published for a domain reaches `std::stoi` and the `throw` of the SPF parser, and
no caller catches an exception.
-/

namespace EmailServer.AntiSpam

open EmailServer.Bytes EmailServer.Auth.PasswordHash

/-! ## DMARC -/

/-- The nearest records are one valid record, and its percentage is not a number. -/
def MiscountedPct (lookupTxt : Bytes → List Bytes) (domain : Bytes) : Prop :=
  ∃ i d txt pct, Nearest lookupTxt domain i d ∧ dmarcRecords lookupTxt d = [txt] ∧
    RecordTag txt (ascii "v") (ascii "DMARC1") ∧ RecordTag txt (ascii "pct") pct ∧ ¬ Number pct

section Dmarc

variable {lookupTxt : Bytes → List Bytes} {domain txt : Bytes}

theorem nearest_or_nothing (lookupTxt : Bytes → List Bytes) (domain : Bytes) :
    (∃ i d, Nearest lookupTxt domain i d) ∨
      ∀ i d, Ancestor i domain d → dmarcRecords lookupTxt d = [] := by
  classical
  by_cases recorded : ∃ i d, Ancestor i domain d ∧ dmarcRecords lookupTxt d ≠ []
  · obtain ⟨d, ancestor, records⟩ := Nat.find_spec recorded
    refine .inl ⟨Nat.find recorded, d, ancestor, records, fun j below d' between => ?_⟩
    by_contra records'
    exact Nat.find_min recorded below ⟨d', between, records'⟩
  · push Not at recorded
    exact .inr recorded

theorem Nearest.unique {i j : Nat} {d e : Bytes} (nearest : Nearest lookupTxt domain i d)
    (again : Nearest lookupTxt domain j e) : e = d := by
  have same := (discovered_nearest nearest).symm.trans (discovered_nearest again)
  exact (Prod.mk.inj same).1.symm

theorem policyTags_isSome : (policyTags (parseTags txt)).isSome ↔
    ∀ pct, RecordTag txt (ascii "pct") pct → Number pct := by
  rw [policyTags, Option.isSome_map]
  cases pct : tag? (parseTags txt) (ascii "pct") with
  | none => exact iff_of_true rfl fun v named => absurd named (tag?_none.mp pct v)
  | some v =>
      rw [tag?_iff] at pct
      dsimp only
      rw [stoi_isSome_iff]
      constructor
      · intro number w named
        rwa [← pct.unique named]
      · exact fun numbers => numbers v pct

/-- With a single record, the evaluation returns unless it reads a percentage. -/
theorem single_returns {draw : Int} {input : DmarcInput} {i : Nat} {d : Bytes}
    (nearest : Nearest lookupTxt (toLower input.fromDomain) i d)
    (single : dmarcRecords lookupTxt d = [txt]) :
    (DmarcEvaluator.evaluate lookupTxt draw input).isSome ↔
      (RecordTag txt (ascii "v") (ascii "DMARC1") →
        ∀ pct, RecordTag txt (ascii "pct") pct → Number pct) := by
  rw [DmarcEvaluator.evaluate, discovered_nearest nearest, single]
  by_cases valid : RecordTag txt (ascii "v") (ascii "DMARC1")
  · simp only [version_iff.mpr valid, valid, ne_eq, not_true_eq_false, if_false, true_imp_iff,
      ← policyTags_isSome]
    cases policyTags (parseTags txt) with
    | none => rfl
    | some tags =>
        refine iff_of_true ?_ rfl
        dsimp only
        split_ifs <;> rfl
  · refine iff_of_true ?_ fun valid' => absurd valid' valid
    dsimp only
    rw [if_pos fun same => valid (version_iff.mp same)]
    rfl

end Dmarc

/-- An evaluation returns if and only if it does not come upon such a percentage. -/
theorem evaluate_returns_iff (lookupTxt : Bytes → List Bytes) (draw : Int) (input : DmarcInput) :
    (DmarcEvaluator.evaluate lookupTxt draw input).isSome ↔
      ¬ MiscountedPct lookupTxt (toLower input.fromDomain) := by
  rcases nearest_or_nothing lookupTxt (toLower input.fromDomain) with ⟨i, d, nearest⟩ | absent
  · have found : MiscountedPct lookupTxt (toLower input.fromDomain) ↔
        ∃ txt pct, dmarcRecords lookupTxt d = [txt] ∧ RecordTag txt (ascii "v") (ascii "DMARC1") ∧
          RecordTag txt (ascii "pct") pct ∧ ¬ Number pct := by
      constructor
      · rintro ⟨j, e, txt, pct, nearest', single, rest⟩
        rw [nearest.unique nearest'] at single
        exact ⟨txt, pct, single, rest⟩
      · rintro ⟨txt, pct, single, rest⟩
        exact ⟨i, d, txt, pct, nearest, single, rest⟩
    rw [found]
    rcases records : dmarcRecords lookupTxt d with _ | ⟨txt, _ | ⟨second, rest⟩⟩
    · exact absurd records nearest.records
    · rw [single_returns nearest records]
      simp only [List.cons.injEq, and_true, exists_and_left, exists_eq_left', not_and, not_exists,
        not_not]
    · refine iff_of_true ?_ (by simp)
      rw [DmarcEvaluator.evaluate, discovered_nearest nearest, records]
      rfl
  · refine iff_of_true ?_ ?_
    · simp only [DmarcEvaluator.evaluate, discovered_nothing absent]
      rfl
    · rintro ⟨i, d, txt, pct, nearest, -⟩
      exact nearest.records (absent i d nearest.ancestor)

/-- A percentage in letters. -/
theorem pct_throws :
    DmarcEvaluator.evaluate (fun _ => [ascii "v=DMARC1; p=reject; pct=all"]) 0
      ⟨ascii "a.b", false, [], false, []⟩ = none := by
  have nearest : Nearest (fun _ => [ascii "v=DMARC1; p=reject; pct=all"])
      (toLower (ascii "a.b")) 0 (toLower (ascii "a.b")) :=
    { ancestor := .self
      records := List.cons_ne_nil _ _
      first := fun j below => absurd below (by omega) }
  have version : (tag? (parseTags (ascii "v=DMARC1; p=reject; pct=all")) (ascii "v")).getD [] =
      ascii "DMARC1" := by decide +kernel
  have tags : policyTags (parseTags (ascii "v=DMARC1; p=reject; pct=all")) = none := by decide +kernel
  simp only [DmarcEvaluator.evaluate, discovered_nearest nearest, dmarcRecords, version, tags, ne_eq,
    not_true_eq_false, if_false]

/-! ## SPF -/

/-- A domain among the first ten of the redirects has one record, and a term of it cannot be
    read. -/
def MeetsUnreadable (lookupTxt : Bytes → List Bytes) (domain : Bytes) : Prop :=
  Reaches lookupTxt domain fun records =>
    ∃ txt, records = [txt] ∧ ∃ term ∈ (words txt).tail, ¬ Readable term

/-- The check gives a result, and an error for a record that cannot be read. -/
def Answers (lookupTxt : Bytes → List Bytes) (ip mailFrom heloDomain : Bytes) : Prop :=
  ∃ r, SpfChecker.check lookupTxt ip mailFrom heloDomain = some r ∧
    (MeetsUnreadable lookupTxt (SpfChecker.senderDomain mailFrom heloDomain) → r.result = .permError)

section Spf

variable {lookupTxt : Bytes → List Bytes} {domain : Bytes} {left : Nat}

theorem answer_none : answer lookupTxt domain = none ↔
    ∃ txt, spfRecords lookupTxt domain = [txt] ∧ ∃ term ∈ (words txt).tail, ¬ Readable term := by
  have published : ∀ txt ∈ spfRecords lookupTxt domain, isSpf txt = true := fun txt member =>
    (List.mem_filter.mp member).2
  unfold answer
  rcases records : spfRecords lookupTxt domain with _ | ⟨txt, _ | ⟨second, rest⟩⟩
  · simp
  · have spf := published txt (by simp [records])
    have read := @parse_isSome txt
    rw [spf, eq_self_iff_true, true_and] at read
    simp only [Option.map_eq_none_iff, List.cons.injEq, and_true, exists_eq_left']
    rw [← Option.not_isSome_iff_eq_none, read]
    push Not
    rfl
  · simp

theorem evaluateWith_none : SpfEvaluator.evaluateWith lookupTxt left domain = none ↔
    ∃ n < left, ∃ last, redirected lookupTxt n domain = some last ∧ answer lookupTxt last = none := by
  induction left generalizing domain with
  | zero => simp [SpfEvaluator.evaluateWith]
  | succ left ih =>
      -- the domain itself, or one that it redirects to
      have split : (∃ n < left + 1, ∃ last, redirected lookupTxt n domain = some last ∧
          answer lookupTxt last = none) ↔ answer lookupTxt domain = none ∨
            ∃ target, redirectOf lookupTxt domain = some target ∧ ∃ n < left, ∃ last,
              redirected lookupTxt n target = some last ∧ answer lookupTxt last = none := by
        constructor
        · rintro ⟨n, few, last, path, throws⟩
          cases n with
          | zero =>
              obtain rfl := Option.some.inj path
              exact .inl throws
          | succ n =>
              obtain ⟨target, redirects, path⟩ := Option.bind_eq_some_iff.mp path
              exact .inr ⟨target, redirects, n, by omega, last, path, throws⟩
        · rintro (throws | ⟨target, redirects, n, few, last, path, throws⟩)
          · exact ⟨0, by omega, domain, rfl, throws⟩
          · exact ⟨n + 1, by omega, last, by simp [redirected, redirects, path], throws⟩
      rw [split, evaluateWith_answer]
      simp only [redirectOf_some, ← ih]
      rcases answer lookupTxt domain with _ | ⟨_ | _⟩ <;> simp

/-- The check gives a result if and only if every record that it meets can be read. -/
theorem check_answers_iff (lookupTxt : Bytes → List Bytes) (ip mailFrom heloDomain : Bytes) :
    Answers lookupTxt ip mailFrom heloDomain ↔
      ¬ MeetsUnreadable lookupTxt (SpfChecker.senderDomain mailFrom heloDomain) := by
  have throws : SpfEvaluator.evaluate lookupTxt (SpfChecker.senderDomain mailFrom heloDomain) = none ↔
      MeetsUnreadable lookupTxt (SpfChecker.senderDomain mailFrom heloDomain) := by
    simp only [SpfEvaluator.evaluate, evaluateWith_none, answer_none, MeetsUnreadable, Reaches]
  rw [← throws, Answers, SpfChecker.check, ← throws]
  cases SpfEvaluator.evaluate lookupTxt (SpfChecker.senderDomain mailFrom heloDomain) with
  | none => simp
  | some code => simp

/-- A record with an unknown mechanism. -/
theorem unknown_mechanism_throws :
    SpfChecker.check (fun _ => [ascii "v=spf1 a/24 -all"]) (ascii "1.2.3.4") (ascii "u@a.b")
      (ascii "a.b") = none := by
  decide +kernel

end Spf

end EmailServer.AntiSpam
