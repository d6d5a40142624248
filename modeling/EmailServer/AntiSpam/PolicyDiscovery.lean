import EmailServer.AntiSpam.DmarcEvaluator

/-! # Which policy is found

The evaluation goes from a domain to its parents until one of them has records. A later tag
of a record replaces an earlier one of the same name.
-/

namespace EmailServer.AntiSpam

open EmailServer.Bytes

/-! ## Tags of a record -/

/-- The part of a record gives the tag `k` the value `v`. -/
def Names (part k v : Bytes) : Prop :=
  ∃ name value, part = name ++ equals :: value ∧ equals ∉ name ∧
    k = ((toLower name).filter fun c => !isSpace c) ∧ v = value.filter fun c => !isSpace c

/-- The last part of the record that names the tag gives it this value. -/
def RecordTag (txt k v : Bytes) : Prop :=
  ∃ before part after, getlines semicolon txt = before ++ part :: after ∧ Names part k v ∧
    ∀ p ∈ after, ∀ w, ¬ Names p k w

theorem parseTag_iff {part k v : Bytes} : parseTag part = some (k, v) ↔ Names part k v := by
  constructor
  · intro parsed
    obtain ⟨⟨name, value⟩, parts, same⟩ := Option.map_eq_some_iff.mp parsed
    obtain ⟨rfl, rfl⟩ := Prod.mk.inj same
    exact ⟨name, value, cut_eq parts, cut_clean parts, rfl, rfl⟩
  · rintro ⟨name, value, rfl, clean, rfl, rfl⟩
    rw [parseTag, cut_append clean]
    rfl

theorem lookup_filterMap {α β γ : Type} [BEq β] [LawfulBEq β] {f : α → Option (β × γ)} {k : β}
    {v : γ} {parts : List α} : (parts.filterMap f).lookup k = some v ↔
      ∃ before part after, parts = before ++ part :: after ∧ f part = some (k, v) ∧
        ∀ p ∈ before, ∀ w, f p ≠ some (k, w) := by
  rw [List.lookup_eq_some_iff]
  constructor
  · rintro ⟨l₁, l₂, entries, first⟩
    obtain ⟨front, rest, rfl, rfl, rest'⟩ := List.filterMap_eq_append_iff.mp entries
    obtain ⟨skipped, part, after, rfl, skip, found, -⟩ := List.filterMap_eq_cons_iff.mp rest'
    refine ⟨front ++ skipped, part, after, by simp, found, fun p there w entry => ?_⟩
    rcases List.mem_append.mp there with earlier | between
    · simpa using first (k, w) (List.mem_filterMap.mpr ⟨p, earlier, entry⟩)
    · rw [skip p between] at entry
      cases entry
  · rintro ⟨before, part, after, rfl, found, first⟩
    refine ⟨before.filterMap f, after.filterMap f, by simp [found], ?_⟩
    intro ⟨k', w⟩ member
    obtain ⟨p, there, entry⟩ := List.mem_filterMap.mp member
    simp only [bne_iff_ne, ne_eq]
    rintro rfl
    exact first p there w entry

theorem tag?_iff {txt k v : Bytes} : tag? (parseTags txt) k = some v ↔ RecordTag txt k v := by
  simp only [tag?, parseTags, RecordTag, ← List.filterMap_reverse, lookup_filterMap, ← parseTag_iff]
  constructor
  · rintro ⟨after, part, before, whole, named, last⟩
    refine ⟨before.reverse, part, after.reverse, ?_, named, by simpa using last⟩
    rw [← List.reverse_reverse (getlines semicolon txt), whole]
    simp
  · rintro ⟨before, part, after, whole, named, last⟩
    exact ⟨after.reverse, part, before.reverse, by simp [whole], named, by simpa using last⟩

theorem RecordTag.unique {txt k v w : Bytes} (named : RecordTag txt k v) (again : RecordTag txt k w) :
    v = w := by
  rw [← tag?_iff] at named again
  exact Option.some.inj (named.symm.trans again)

theorem tag?_none {txt k : Bytes} : tag? (parseTags txt) k = none ↔ ∀ v, ¬ RecordTag txt k v := by
  simp only [← tag?_iff, Option.eq_none_iff_forall_ne_some, ne_eq]

theorem version_iff {txt : Bytes} : (tag? (parseTags txt) (ascii "v")).getD [] = ascii "DMARC1" ↔
    RecordTag txt (ascii "v") (ascii "DMARC1") := by
  have other : [] ≠ ascii "DMARC1" := by decide
  rw [← tag?_iff]
  cases tag? (parseTags txt) (ascii "v") <;> simp [other]

/-! ## Ancestors -/

/-- What is left of a domain after so many of its first labels. -/
inductive Ancestor : Nat → Bytes → Bytes → Prop where
  | self {d : Bytes} : Ancestor 0 d d
  | parent {i : Nat} {label p d : Bytes} :
      dot ∉ label → p ≠ [] → Ancestor i p d → Ancestor (i + 1) (label ++ dot :: p) d

def dmarcRecords (lookupTxt : Bytes → List Bytes) (d : Bytes) : List Bytes :=
  lookupTxt (ascii "_dmarc." ++ d)

/-- The nearest ancestor that has records. -/
structure Nearest (lookupTxt : Bytes → List Bytes) (domain : Bytes) (i : Nat) (d : Bytes) : Prop where
  ancestor : Ancestor i domain d
  records : dmarcRecords lookupTxt d ≠ []
  first : ∀ j < i, ∀ d', Ancestor j domain d' → dmarcRecords lookupTxt d' = []

/-- The loop, as it runs. -/
inductive Discovers (lookupTxt : Bytes → List Bytes) : Bytes → Bytes × List Bytes → Prop where
  | found {cur : Bytes} : dmarcRecords lookupTxt cur ≠ [] →
      Discovers lookupTxt cur (cur, dmarcRecords lookupTxt cur)
  | last {cur : Bytes} : dmarcRecords lookupTxt cur = [] → parentDomain cur = [] →
      Discovers lookupTxt cur (cur, [])
  | parent {cur : Bytes} {r : Bytes × List Bytes} : dmarcRecords lookupTxt cur = [] →
      parentDomain cur ≠ [] → Discovers lookupTxt (parentDomain cur) r → Discovers lookupTxt cur r

section Loop

variable {lookupTxt : Bytes → List Bytes} {cur d d' : Bytes} {i : Nat}

theorem parentDomain_append {label p : Bytes} (clean : dot ∉ label) :
    parentDomain (label ++ dot :: p) = p := by
  rw [parentDomain, cut_append clean]

theorem ancestor_succ :
    Ancestor (i + 1) cur d ↔ parentDomain cur ≠ [] ∧ Ancestor i (parentDomain cur) d := by
  constructor
  · intro ancestor
    cases ancestor with
    | parent clean nonempty above =>
        rw [parentDomain_append clean]
        exact ⟨nonempty, above⟩
  · intro ⟨nonempty, above⟩
    cases parts : cut dot cur with
    | none => exact absurd (by rw [parentDomain, parts]) nonempty
    | some part =>
        obtain ⟨label, p⟩ := part
        have parent : parentDomain cur = p := by rw [parentDomain, parts]
        rw [parent] at nonempty above
        rw [cut_eq parts]
        exact .parent (cut_clean parts) nonempty above

theorem Ancestor.shorter (ancestor : Ancestor i cur d) : d.length + i ≤ cur.length := by
  induction ancestor with
  | self => exact le_refl _
  | parent _ _ _ ih =>
      rw [List.length_append, List.length_cons]
      omega

theorem Ancestor.eq_iff (ancestor : Ancestor i cur d) : d = cur ↔ i = 0 := by
  constructor
  · rintro rfl
    have bound := ancestor.shorter
    omega
  · rintro rfl
    cases ancestor
    rfl

theorem discovers_discovered : Discovers lookupTxt cur (discovered lookupTxt cur) := by
  induction length : cur.length using Nat.strong_induction_on generalizing cur with
  | _ n ih =>
      rw [discovered_eq]
      dsimp only
      split
      · rename_i found
        exact .found found
      · rename_i absent
        have nothing : dmarcRecords lookupTxt cur = [] := not_not.mp absent
        split
        · rename_i last
          have none : lookupTxt (ascii "_dmarc." ++ cur) = [] := nothing
          rw [none]
          exact .last nothing last
        · rename_i parent
          exact .parent nothing parent
            (ih _ (length ▸ parentDomain_shorter parent) rfl)

theorem Discovers.eq {r : Bytes × List Bytes} (run : Discovers lookupTxt cur r) :
    discovered lookupTxt cur = r := by
  induction run with
  | found found =>
      rw [discovered_eq]
      exact if_pos found
  | last absent last =>
      have none : lookupTxt (ascii "_dmarc." ++ _) = [] := absent
      rw [discovered_eq]
      simp only [none, last, ne_eq, not_true_eq_false, if_false, if_true]
  | parent absent parent _ ih =>
      have none : lookupTxt (ascii "_dmarc." ++ _) = [] := absent
      rw [discovered_eq]
      simp only [none, parent, ne_eq, not_true_eq_false, if_false, ih]

theorem discovered_nearest (nearest : Nearest lookupTxt cur i d) :
    discovered lookupTxt cur = (d, dmarcRecords lookupTxt d) := by
  induction i generalizing cur with
  | zero =>
      obtain rfl := nearest.ancestor.eq_iff.mpr rfl
      exact (Discovers.found nearest.records).eq
  | succ i ih =>
      obtain ⟨nonempty, above⟩ := ancestor_succ.mp nearest.ancestor
      have later : Nearest lookupTxt (parentDomain cur) i d :=
        { ancestor := above
          records := nearest.records
          first := fun j below d' between =>
            nearest.first (j + 1) (by omega) d' (ancestor_succ.mpr ⟨nonempty, between⟩) }
      have run := @discovers_discovered lookupTxt (parentDomain cur)
      rw [ih later] at run
      exact (Discovers.parent (nearest.first 0 (by omega) cur .self) nonempty run).eq

theorem discovered_nothing (absent : ∀ i d, Ancestor i cur d → dmarcRecords lookupTxt d = []) :
    (discovered lookupTxt cur).2 = [] := by
  have run := @discovers_discovered lookupTxt cur
  generalize discovered lookupTxt cur = r at run
  induction run with
  | found found => exact absurd (absent 0 _ .self) found
  | last => rfl
  | parent _ nonempty _ ih =>
      exact ih fun i d above => absent (i + 1) d (ancestor_succ.mpr ⟨nonempty, above⟩)

end Loop

/-! ## The policy -/

/-- The policy that a record asks for, so many labels above the domain. -/
inductive Asks (txt : Bytes) : Nat → Bytes → Prop where
  | domain {name : Bytes} : RecordTag txt (ascii "p") name → Asks txt 0 name
  | unset : (∀ name, ¬ RecordTag txt (ascii "p") name) → Asks txt 0 (ascii "none")
  | subdomain {i : Nat} {name : Bytes} : RecordTag txt (ascii "sp") name → Asks txt (i + 1) name
  | inherited {i : Nat} {name : Bytes} : (∀ name, ¬ RecordTag txt (ascii "sp") name) →
      Asks txt 0 name → Asks txt (i + 1) name

/-- What the evaluation makes of records. -/
inductive Verdict (txts : List Bytes) (i : Nat) : DmarcResult → Prop where
  | several : 1 < txts.length → Verdict txts i ⟨.fail, .reject⟩
  | invalid {txt : Bytes} : txts = [txt] → ¬ RecordTag txt (ascii "v") (ascii "DMARC1") →
      Verdict txts i ⟨.fail, .reject⟩
  | asked {txt name : Bytes} : txts = [txt] → RecordTag txt (ascii "v") (ascii "DMARC1") →
      Asks txt i name → Verdict txts i ⟨.fail, enforced name⟩

section Policy

variable {txt : Bytes} {i : Nat} {tags : PolicyTags}

theorem Asks.unique {name other : Bytes} (asks : Asks txt i name) (again : Asks txt i other) :
    name = other := by
  induction asks with
  | domain named =>
      cases again with
      | domain named' => exact named.unique named'
      | unset absent => exact absurd named (absent _)
  | unset absent =>
      cases again with
      | domain named => exact absurd named (absent _)
      | unset => rfl
  | subdomain named =>
      cases again with
      | subdomain named' => exact named.unique named'
      | inherited absent _ => exact absurd named (absent _)
  | inherited absent _ ih =>
      cases again with
      | subdomain named => exact absurd named (absent _)
      | inherited _ above => exact ih above

theorem Verdict.unique {txts : List Bytes} {r r' : DmarcResult} (verdict : Verdict txts i r)
    (again : Verdict txts i r') : r' = r := by
  cases verdict with
  | several more =>
      cases again with
      | several | invalid => rfl
      | asked single => simp [single] at more
  | invalid single version =>
      cases again with
      | several | invalid => rfl
      | asked single' version' =>
          obtain ⟨rfl, -⟩ := List.cons.inj (single.symm.trans single')
          exact absurd version' version
  | asked single version asks =>
      cases again with
      | several more => simp [single] at more
      | invalid single' version' =>
          obtain ⟨rfl, -⟩ := List.cons.inj (single.symm.trans single')
          exact absurd version version'
      | asked single' _ asks' =>
          obtain ⟨rfl, -⟩ := List.cons.inj (single.symm.trans single')
          rw [asks'.unique asks]

theorem asks_policyTags (read : policyTags (parseTags txt) = some tags) :
    Asks txt i (if i = 0 then tags.p else tags.sp) := by
  obtain ⟨pct, -, rfl⟩ := Option.map_eq_some_iff.mp read
  have domain : Asks txt 0 ((tag? (parseTags txt) (ascii "p")).getD (ascii "none")) := by
    cases p : tag? (parseTags txt) (ascii "p") with
    | none => exact .unset (tag?_none.mp p)
    | some name => exact .domain (tag?_iff.mp p)
  cases i with
  | zero => exact domain
  | succ i =>
      rw [if_neg (Nat.succ_ne_zero i)]
      dsimp only
      cases sp : tag? (parseTags txt) (ascii "sp") with
      | none => exact .inherited (tag?_none.mp sp) domain
      | some name => exact .subdomain (tag?_iff.mp sp)

theorem policyTags_pct (unset : ∀ v, ¬ RecordTag txt (ascii "pct") v) :
    ∃ tags, policyTags (parseTags txt) = some tags ∧ tags.pct = 100 := by
  rw [policyTags, tag?_none.mpr unset]
  exact ⟨_, rfl, rfl⟩

end Policy

/-- Without authentication and without `pct`, the evaluation ends, lets a message pass if
    no ancestor of its domain has records, and otherwise gives the verdict of the nearest. -/
theorem policy_discovered (lookupTxt : Bytes → List Bytes) (draw : Int) {input : DmarcInput}
    (dkim : input.dkimPass = false) (spf : input.spfPass = false) :
    (∃ r, Discovers lookupTxt (toLower input.fromDomain) r) ∧
    ((∀ i d, Ancestor i (toLower input.fromDomain) d → dmarcRecords lookupTxt d = []) →
      DmarcEvaluator.evaluate lookupTxt draw input = some ⟨.pass, .none⟩) ∧
    ∀ i d, Nearest lookupTxt (toLower input.fromDomain) i d →
      (∀ txt v, dmarcRecords lookupTxt d = [txt] → ¬ RecordTag txt (ascii "pct") v) →
      ∃ r, DmarcEvaluator.evaluate lookupTxt draw input = some r ∧
        ∀ r', Verdict (dmarcRecords lookupTxt d) i r' ↔ r' = r := by
  refine ⟨⟨_, discovers_discovered⟩, fun absent => ?_, fun i d nearest unset => ?_⟩
  · simp only [DmarcEvaluator.evaluate, discovered_nothing absent]
  · suffices given : ∃ r, DmarcEvaluator.evaluate lookupTxt draw input = some r ∧
        Verdict (dmarcRecords lookupTxt d) i r by
      obtain ⟨r, result, verdict⟩ := given
      exact ⟨r, result, fun r' => ⟨verdict.unique, fun same => same ▸ verdict⟩⟩
    rw [DmarcEvaluator.evaluate, discovered_nearest nearest]
    dsimp only
    rcases records : dmarcRecords lookupTxt d with _ | ⟨txt, _ | ⟨second, rest⟩⟩
    · exact absurd records nearest.records
    · obtain ⟨tags, read, pct⟩ := policyTags_pct fun v => unset txt v records
      have unauthenticated : authPass tags (toLower input.fromDomain) input = false := by
        simp [authPass, aligned, dkim, spf]
      have sampled : samplePct draw tags.pct = true := by simp [samplePct, pct]
      have asks := @asks_policyTags txt i tags read
      by_cases valid : RecordTag txt (ascii "v") (ascii "DMARC1")
      · have choice : (if d ≠ toLower input.fromDomain then tags.sp else tags.p) =
            if i = 0 then tags.p else tags.sp := by
          simp only [ne_eq, nearest.ancestor.eq_iff, ite_not]
        simp only [version_iff.mpr valid, ne_eq, not_true_eq_false, if_false, read, unauthenticated,
          Bool.false_eq_true, sampled, Bool.not_true]
        exact ⟨_, rfl, choice ▸ .asked rfl valid asks⟩
      · exact ⟨_, if_pos fun same => valid (version_iff.mp same), .invalid rfl valid⟩
    · exact ⟨_, rfl, .several (by simp)⟩

/-- With no records for the domain and two for its parent. -/
theorem policy_discovered_parent :
    let lookupTxt := fun name => if name = ascii "_dmarc.b.c" then [[], []] else []
    let input : DmarcInput := ⟨ascii "A.B.C", false, [], false, []⟩
    ∃ r, DmarcEvaluator.evaluate lookupTxt 1 input = some r ∧
      ∀ r', Verdict (dmarcRecords lookupTxt (ascii "b.c")) 1 r' ↔ r' = r := by
  have ancestor : Ancestor 1 (toLower (ascii "A.B.C")) (ascii "b.c") :=
    @Ancestor.parent 0 (ascii "a") (ascii "b.c") _ (by decide) (by decide) .self
  refine (policy_discovered _ 1 rfl rfl).2.2 1 (ascii "b.c") ⟨ancestor, by decide +kernel, ?_⟩ ?_
  · intro j below d self
    obtain rfl : j = 0 := by omega
    obtain rfl := self.eq_iff.mpr rfl
    decide +kernel
  · intro txt v single
    have two : [[], []] = [txt] := single
    simp at two

end EmailServer.AntiSpam
