import EmailServer.Library.WriteThrough
import EmailServer.Virus.SandboxEngine

/-! # The verdict stores

Both stores keep one bit of a result: whether it is called malicious. What is not malicious comes
back as clean, also where the result was a suspicion, an error or nothing at all.
-/

namespace EmailServer.Virus

open WriteThrough (Event)

inductive CloudVerdict where
  | clean
  | suspicious
  | malicious
  | unknown
  | error
  deriving DecidableEq

structure CloudScanResult where
  verdict : CloudVerdict := .unknown
  enginesDetected : Int := 0
  enginesTotal : Int := 0
  provider : Bytes := []
  reportUrl : Bytes := []
  deriving DecidableEq

/-- `verdicts_`, true for malicious. -/
abbrev Verdicts := WriteThrough.Table Bytes Bool

/-- Both implementations are the same but for the bit and the answer. -/
abbrev VerdictStore := WriteThrough.Store Bytes Bool

/-! ## The stores as they are -/

namespace VirusVerdictStore

/-- A result with the hash it is stored for. -/
abbrev Result := Bytes × CloudScanResult

/-- What `store` keeps. -/
def malicious (r : Result) : Bool := r.2.verdict == .malicious || decide (0 < r.2.enginesDetected)

/-- The store after calls of `store` and restarts. -/
def run (codec : Codec Verdicts) (events : List (Event Result)) : VerdictStore :=
  WriteThrough.run codec Prod.fst malicious events

def get (s : VerdictStore) (sha256 : Bytes) : Option CloudScanResult :=
  match s.memory.lookup sha256 with
  | none => none
  | some malicious =>
      some {
        verdict := if malicious then .malicious else .clean
        enginesDetected := if malicious then 5 else 0
        enginesTotal := 70
        provider := ascii "persistent-cache"
        reportUrl := ascii "cached" }

end VirusVerdictStore

namespace SandboxVerdictStore

/-- What `store` keeps. -/
def malicious (r : SandboxResult) : Bool := r.verdict == .malicious

def run (codec : Codec Verdicts) (events : List (Event SandboxResult)) : VerdictStore :=
  WriteThrough.run codec SandboxResult.sha256 malicious events

def get (s : VerdictStore) (sha256 : Bytes) : SandboxResult :=
  match s.memory.lookup sha256 with
  | none => { sha256 := sha256, verdict := .unknown }
  | some malicious => { sha256 := sha256, verdict := if malicious then .malicious else .clean }

end SandboxVerdictStore

/-! ## What clean should mean -/

def VirusVerdictStore.Deserved (r : Result) : Prop :=
  r.2.verdict = .clean ∧ ¬ 0 < r.2.enginesDetected

/-- Clean is what the last result was. -/
def VirusVerdictStore.NeverWhitewashes (past : List (Event Result)) (s : VerdictStore) : Prop :=
  ∀ sha256 out, get s sha256 = some out → out.verdict = .clean →
    ∃ r, latest (WriteThrough.putUnder Prod.fst sha256) past = some r ∧ Deserved r

def SandboxVerdictStore.NeverWhitewashes (past : List (Event SandboxResult)) (s : VerdictStore) :
    Prop :=
  ∀ sha256, (get s sha256).verdict = .clean →
    ∃ r, latest (WriteThrough.putUnder SandboxResult.sha256 sha256) past = some r ∧ r.verdict = .clean

section Stores

variable {s : VerdictStore}

theorem VirusVerdictStore.neverWhitewashes_iff {past : List (Event Result)} :
    NeverWhitewashes past s ↔ WriteThrough.Reports Prod.fst (· = false) Deserved past s := by
  constructor
  · rintro never sha256 malicious found rfl
    exact never sha256 _ (by rw [get, found]) rfl
  · intro reports sha256 out read clean
    unfold get at read
    split at read
    · cases read
    · rename_i malicious found
      cases read
      cases malicious with
      | false => exact reports sha256 false found rfl
      | true => cases clean

theorem SandboxVerdictStore.neverWhitewashes_iff {past : List (Event SandboxResult)} :
    NeverWhitewashes past s ↔
      WriteThrough.Reports SandboxResult.sha256 (· = false) (·.verdict = .clean) past s := by
  constructor
  · rintro never sha256 malicious found rfl
    exact never sha256 (by rw [get, found]; rfl)
  · intro reports sha256 clean
    unfold get at clean
    split at clean
    · cases clean
    · rename_i malicious found
      cases malicious with
      | false => exact reports sha256 false found rfl
      | true => cases clean

/-- A virus result that one bit can hold. -/
def CloudScanResult.Decided (r : CloudScanResult) : Prop :=
  r.verdict = .clean ∨ r.verdict = .malicious ∨ 0 < r.enginesDetected

def SandboxResult.Decided (r : SandboxResult) : Prop := r.verdict = .clean ∨ r.verdict = .malicious

theorem VirusVerdictStore.kept_iff {r : Result} :
    (malicious r = false → Deserved r) ↔ r.2.Decided := by
  simp only [malicious, Bool.or_eq_false_iff, beq_eq_false_iff_ne, decide_eq_false_iff_not, Deserved,
    CloudScanResult.Decided]
  tauto

theorem SandboxVerdictStore.kept_iff {r : SandboxResult} :
    (malicious r = false → r.verdict = .clean) ↔ r.Decided := by
  simp only [malicious, beq_eq_false_iff_ne, SandboxResult.Decided]
  tauto

/-- In every run the stores never whitewash if no file is left behind by an exception and no result
that they are given is undecided. That no result is, is necessary in any case. -/
theorem never_whitewashes_iff (codec : Codec Verdicts) (virus : List (Event VirusVerdictStore.Result))
    (sandbox : List (Event SandboxResult)) :
    (((∀ event ∈ virus, event.Saves codec) ∧ (∀ r saved, .put r saved ∈ virus → r.2.Decided) →
          ∀ past, past <+: virus →
            VirusVerdictStore.NeverWhitewashes past (VirusVerdictStore.run codec past)) ∧
        ((∀ past, past <+: virus →
            VirusVerdictStore.NeverWhitewashes past (VirusVerdictStore.run codec past)) →
          ∀ r saved, .put r saved ∈ virus → r.2.Decided)) ∧
      ((∀ event ∈ sandbox, event.Saves codec) ∧ (∀ r saved, .put r saved ∈ sandbox → r.Decided) →
          ∀ past, past <+: sandbox →
            SandboxVerdictStore.NeverWhitewashes past (SandboxVerdictStore.run codec past)) ∧
        ((∀ past, past <+: sandbox →
            SandboxVerdictStore.NeverWhitewashes past (SandboxVerdictStore.run codec past)) →
          ∀ r saved, .put r saved ∈ sandbox → r.Decided) := by
  simp only [VirusVerdictStore.neverWhitewashes_iff, VirusVerdictStore.run,
    SandboxVerdictStore.neverWhitewashes_iff, SandboxVerdictStore.run]
  simp only [← VirusVerdictStore.kept_iff, ← SandboxVerdictStore.kept_iff]
  exact ⟨⟨fun kept => WriteThrough.kept_reports kept.1 kept.2,
      fun reports r saved member => WriteThrough.reports_kept reports member⟩,
    fun kept => WriteThrough.kept_reports kept.1 kept.2,
    fun reports r saved member => WriteThrough.reports_kept reports member⟩

end Stores

/-- Any encoding of the tables. -/
noncomputable def someCodec : Codec Verdicts := Codec.ofCountable Verdicts

def malware : VirusVerdictStore.Result := (ascii "h", { verdict := .malicious })
def harmless : SandboxResult := { sha256 := ascii "h", verdict := .clean }

/-- Decided results, and a restart behind them. -/
theorem never_whitewashes_decided :
    (∀ past, past <+: [.put malware .written, .restart] →
        VirusVerdictStore.NeverWhitewashes past (VirusVerdictStore.run someCodec past)) ∧
      ∀ past, past <+: [.put harmless .written, .restart] →
        SandboxVerdictStore.NeverWhitewashes past (SandboxVerdictStore.run someCodec past) := by
  have both := never_whitewashes_iff someCodec [.put malware .written, .restart]
    [.put harmless .written, .restart]
  refine ⟨both.1.1 ⟨by simp [Event.Saves], fun r saved member => ?_⟩,
    both.2.1 ⟨by simp [Event.Saves], fun r saved member => ?_⟩⟩
  · obtain ⟨rfl, -⟩ : r = malware ∧ saved = .written := by simpa using member
    exact .inr (.inl rfl)
  · obtain ⟨rfl, -⟩ : r = harmless ∧ saved = .written := by simpa using member
    exact .inl rfl

theorem unsaved_whitewashed :
    ¬ SandboxVerdictStore.NeverWhitewashes
        [.put harmless .written, .put { harmless with verdict := .malicious } .threw, .restart]
        (SandboxVerdictStore.run someCodec
          [.put harmless .written, .put { harmless with verdict := .malicious } .threw, .restart]) := by
  intro never
  have found : (SandboxVerdictStore.run someCodec [.put harmless .written,
      .put { harmless with verdict := .malicious } .threw, .restart]).memory.lookup (ascii "h") =
        some false := by
    simp only [SandboxVerdictStore.run, WriteThrough.run, List.foldl_cons, List.foldl_nil,
      WriteThrough.step, WriteThrough.Saved.file, WriteThrough.load, Option.bind_some,
      someCodec.decode_encode, Option.getD_some]
    exact Finmap.lookup_insert _
  obtain ⟨r, last, clean⟩ := never (ascii "h") (by rw [SandboxVerdictStore.get, found]; rfl)
  have same : r = { harmless with verdict := .malicious } := (Option.some.inj last).symm
  rw [same] at clean
  cases clean

def suspect : VirusVerdictStore.Result := (ascii "h", { verdict := .suspicious })
def suspicious : SandboxResult := { sha256 := ascii "h", verdict := .suspicious }

/-- A suspicion comes back as clean from either store. -/
theorem suspicion_whitewashed :
    ¬ VirusVerdictStore.NeverWhitewashes [.put suspect .written]
        (VirusVerdictStore.run someCodec [.put suspect .written]) ∧
      ¬ SandboxVerdictStore.NeverWhitewashes [.put suspicious .written]
        (SandboxVerdictStore.run someCodec [.put suspicious .written]) := by
  constructor
  · intro never
    have found : (VirusVerdictStore.run someCodec [.put suspect .written]).memory.lookup (ascii "h") =
        some false := Finmap.lookup_insert _
    obtain ⟨r, last, deserved⟩ := never (ascii "h") _ (by rw [VirusVerdictStore.get, found]) rfl
    have same : r = suspect := (Option.some.inj last).symm
    rw [same] at deserved
    cases deserved.1
  · intro never
    have found : (SandboxVerdictStore.run someCodec [.put suspicious .written]).memory.lookup
        (ascii "h") = some false := Finmap.lookup_insert _
    obtain ⟨r, last, clean⟩ := never (ascii "h") (by rw [SandboxVerdictStore.get, found]; rfl)
    have same : r = suspicious := (Option.some.inj last).symm
    rw [same] at clean
    cases clean

end EmailServer.Virus
