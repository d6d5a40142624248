import EmailServer.AntiSpam.DmarcEvaluator

/-! # Which identifiers are aligned

The relaxed comparison asks for the From domain at the end of the identifier, and not
for the dot before it. What passes by it without being aligned is a domain of another
owner.
-/

namespace EmailServer.AntiSpam

open EmailServer.Bytes

variable {lookupTxt : Bytes → List Bytes} {input : DmarcInput} {tags : PolicyTags} {draw : Int}

/-- A single record is found, and it is valid. -/
structure RecordFound (lookupTxt : Bytes → List Bytes) (input : DmarcInput)
    (tags : PolicyTags) : Prop where
  single : ∃ txt, (discovered lookupTxt (toLower input.fromDomain)).2 = [txt] ∧
    tag? (parseTags txt) (ascii "v") = some (ascii "DMARC1") ∧ policyTags (parseTags txt) = some tags

/-- An identifier that authenticates the domain: the domain itself or, in relaxed mode,
    a subdomain. -/
def Authenticates (pass : Bool) (mode identifier domain : Bytes) : Prop :=
  pass = true ∧ (identifier = domain ∨ mode ≠ ascii "s" ∧ dot :: domain <:+ identifier)

/-- An identifier that ends like a subdomain, without the dot. -/
def EndsAlike (pass : Bool) (mode identifier domain : Bytes) : Prop :=
  pass = true ∧ mode ≠ ascii "s" ∧ domain <:+ identifier ∧ identifier ≠ domain ∧
    ¬ dot :: domain <:+ identifier

/-- One of the two identifiers is authenticated and aligned. -/
def Aligned (tags : PolicyTags) (input : DmarcInput) : Prop :=
  Authenticates input.dkimPass tags.adkim input.dkimDomain (toLower input.fromDomain) ∨
    Authenticates input.spfPass tags.aspf input.spfDomain (toLower input.fromDomain)

/-- The sampling lets a message pass that is not authenticated. -/
def Exempted (tags : PolicyTags) (draw : Int) (input : DmarcInput) : Prop :=
  authPass tags (toLower input.fromDomain) input = false ∧ samplePct draw tags.pct = false

/-- If the evaluation passes and the message is not exempted, an identifier is aligned. -/
def PassAligned (lookupTxt : Bytes → List Bytes) (input : DmarcInput) : Prop :=
  ∀ tags draw r, RecordFound lookupTxt input tags →
    DmarcEvaluator.evaluate lookupTxt draw input = some r → r.result = .pass → ¬ Exempted tags draw input → Aligned tags input

theorem aligned_iff {pass : Bool} {mode identifier domain : Bytes} :
    aligned pass mode identifier domain = true ↔
      Authenticates pass mode identifier domain ∨ EndsAlike pass mode identifier domain := by
  unfold aligned Authenticates EndsAlike
  have longer : dot :: domain <:+ identifier →
      domain <:+ identifier ∧ domain.length < identifier.length := by
    intro suffix
    have length := suffix.length_le
    rw [List.length_cons] at length
    exact ⟨(List.suffix_cons dot domain).trans suffix, length⟩
  by_cases strict : mode = ascii "s"
  · simp [strict, strictAlign]
  · simp only [strict, if_false, relaxedAlign, Bool.and_eq_true, Bool.or_eq_true, beq_iff_eq,
      decide_eq_true_eq, List.isSuffixOf_iff_suffix, ne_eq, not_false_iff, true_and]
    constructor
    · rintro ⟨passed, same | ⟨length, suffix⟩⟩
      · exact .inl ⟨passed, .inl same⟩
      · by_cases dotted : dot :: domain <:+ identifier
        · exact .inl ⟨passed, .inr dotted⟩
        · refine .inr ⟨passed, suffix, ?_, dotted⟩
          rintro rfl
          exact absurd length (lt_irrefl _)
    · rintro (⟨passed, same | dotted⟩ | ⟨passed, suffix, other, _⟩)
      · exact ⟨passed, .inl same⟩
      · exact ⟨passed, .inr ⟨(longer dotted).2, (longer dotted).1⟩⟩
      · refine ⟨passed, .inr ⟨?_, suffix⟩⟩
        exact lt_of_le_of_ne suffix.length_le fun length => other (suffix.eq_of_length length).symm

theorem evaluate_pass (found : RecordFound lookupTxt input tags) :
    (∃ r, DmarcEvaluator.evaluate lookupTxt draw input = some r ∧ r.result = .pass) ↔
      authPass tags (toLower input.fromDomain) input = true ∨ Exempted tags draw input := by
  obtain ⟨txt, records, valid, read⟩ := found.single
  simp only [DmarcEvaluator.evaluate, records, valid, read, Option.getD_some, ne_eq,
    not_true_eq_false, if_false, Exempted]
  cases authPass tags (toLower input.fromDomain) input with
  | true => simp
  | false =>
      cases samplePct draw tags.pct with
      | true => simp
      | false => simp

/-- A pass is aligned for every draw if and only if, under a valid record, no identifier
    that ends like a subdomain is the only one that passes. -/
theorem pass_aligned_iff : PassAligned lookupTxt input ↔
    ∀ tags, RecordFound lookupTxt input tags →
      EndsAlike input.dkimPass tags.adkim input.dkimDomain (toLower input.fromDomain) ∨
        EndsAlike input.spfPass tags.aspf input.spfDomain (toLower input.fromDomain) →
      Aligned tags input := by
  constructor
  · intro sound tags found alike
    have passes : authPass tags (toLower input.fromDomain) input = true := by
      rw [authPass, Bool.or_eq_true, aligned_iff, aligned_iff]
      exact alike.imp .inr .inr
    obtain ⟨r, result, pass⟩ := (@evaluate_pass lookupTxt input tags 1 found).mpr (.inl passes)
    exact sound tags 1 r found result pass fun exempted => by simp [exempted.1] at passes
  · intro guarded tags draw r found result pass notExempted
    have passes := ((evaluate_pass found).mp ⟨r, result, pass⟩).resolve_right notExempted
    rw [authPass, Bool.or_eq_true, aligned_iff, aligned_iff] at passes
    rcases passes with (dkim | alike) | (spf | alike)
    · exact .inl dkim
    · exact guarded tags found (.inl alike)
    · exact .inr spf
    · exact guarded tags found (.inr alike)

/-- `evilbank.com` passes for `bank.com`. -/
theorem foreign_domain_passes : ∃ lookupTxt input tags r,
    RecordFound lookupTxt input tags ∧ DmarcEvaluator.evaluate lookupTxt 1 input = some r ∧
      r.result = .pass ∧ ¬ PassAligned lookupTxt input := by
  let input : DmarcInput :=
    { fromDomain := ascii "bank.com", spfPass := false, spfDomain := [], dkimPass := true,
      dkimDomain := ascii "evilbank.com" }
  let lookupTxt : Bytes → List Bytes := fun _ => [ascii "v=DMARC1; p=reject"]
  let tags : PolicyTags := ⟨ascii "reject", ascii "reject", ascii "r", ascii "r", 100⟩
  have found : RecordFound lookupTxt input tags := ⟨_, rfl, by decide +kernel, by decide +kernel⟩
  have result : DmarcEvaluator.evaluate lookupTxt 1 input = some ⟨.pass, .none⟩ := by decide +kernel
  refine ⟨lookupTxt, input, tags, _, found, result, rfl, ?_⟩
  intro sound
  have counted : ¬ Exempted tags 1 input := fun exempted => absurd exempted.1 (by decide +kernel)
  rcases sound tags 1 _ found result rfl counted with ⟨_, same | ⟨_, suffix⟩⟩ | ⟨passed, _⟩
  · exact absurd same (by decide)
  · exact absurd suffix (by decide +kernel)
  · cases passed

end EmailServer.AntiSpam
