import EmailServer.Library.FirstFinding
import EmailServer.Library.TextSearch

/-! # The attachment policy

`AttachmentPolicy::evaluate` returns at the first attachment that it does not let through,
with the verdict of that one. A worse attachment behind it is not looked at.
-/

namespace EmailServer.Policy

open EmailServer.Bytes

inductive PolicyVerdict where
  | allow
  | quarantine
  | reject
  deriving DecidableEq

/-- From the mildest up. -/
def PolicyVerdict.severity : PolicyVerdict → Nat
  | .allow => 0
  | .quarantine => 1
  | .reject => 2

instance : LinearOrder PolicyVerdict :=
  LinearOrder.lift' PolicyVerdict.severity fun u v same => by
    cases u <;> cases v <;> first | rfl | cases same

instance : OrderBot PolicyVerdict where
  bot := .allow
  bot_le v := Nat.zero_le v.severity

structure PolicyResult where
  verdict : PolicyVerdict := .allow
  reason : Bytes := []
  deriving DecidableEq

structure AttachmentMeta where
  filename : Bytes
  mimeType : Bytes
  isArchive : Bool := false
  isEncrypted : Bool := false
  deriving DecidableEq

/-- The text on both sides of the last dot. -/
def lastDot (text : Bytes) : Option (Bytes × Bytes) :=
  (cut dot text.reverse).map fun (after, before) => (before.reverse, after.reverse)

namespace AttachmentPolicy

def isExecutable (filename : Bytes) : Bool :=
  let f := toLower filename
  (ascii ".exe").isSuffixOf f || (ascii ".js").isSuffixOf f || (ascii ".vbs").isSuffixOf f ||
    (ascii ".bat").isSuffixOf f || (ascii ".cmd").isSuffixOf f || (ascii ".scr").isSuffixOf f

def isDocument (ext : Bytes) : Bool :=
  ext == ascii "pdf" || ext == ascii "doc" || ext == ascii "jpg"

/-- For a name whose only dot is its first byte, the search for another dot starts over at the
    end and finds the same one. -/
def hasDoubleExtension (filename : Bytes) : Bool :=
  match lastDot (toLower filename) with
  | none => false
  | some ([], ext) => isDocument ext
  | some (before, _) =>
      match lastDot before with
      | none => false
      | some (_, inner) => isDocument inner

def allowedMime (mimeType : Bytes) : Bool :=
  (ascii "image/").isPrefixOf mimeType || mimeType == ascii "application/pdf" ||
    mimeType == ascii "text/plain"

def evaluate : List AttachmentMeta → PolicyResult
  | [] => {}
  | a :: attachments =>
      if isExecutable a.filename then ⟨.reject, ascii "Executable attachment blocked"⟩
      else if hasDoubleExtension a.filename then ⟨.reject, ascii "Double-extension attachment blocked"⟩
      else if a.isArchive && a.isEncrypted then ⟨.quarantine, ascii "Password-protected archive"⟩
      else if !allowedMime a.mimeType then ⟨.quarantine, ascii "Disallowed MIME type"⟩
      else evaluate attachments

end AttachmentPolicy

open AttachmentPolicy

/-! ## One attachment -/

def AttachmentMeta.Rejected (a : AttachmentMeta) : Prop :=
  isExecutable a.filename = true ∨ hasDoubleExtension a.filename = true

instance : DecidablePred AttachmentMeta.Rejected := fun _ => inferInstanceAs (Decidable (_ ∨ _))

def AttachmentMeta.Quarantined (a : AttachmentMeta) : Prop :=
  ¬ a.Rejected ∧ (a.isArchive = true ∧ a.isEncrypted = true ∨ allowedMime a.mimeType = false)

instance : DecidablePred AttachmentMeta.Quarantined := fun _ => inferInstanceAs (Decidable (_ ∧ _))

/-- The verdict on an attachment alone. -/
def single (a : AttachmentMeta) : PolicyVerdict := (evaluate [a]).verdict

section Single

variable {a : AttachmentMeta} {attachments : List AttachmentMeta}

theorem evaluate_cons : (evaluate (a :: attachments)).verdict =
    if a.Rejected then .reject else if a.Quarantined then .quarantine
    else (evaluate attachments).verdict := by
  by_cases executable : isExecutable a.filename = true
  · simp [evaluate, AttachmentMeta.Rejected, executable]
  by_cases double : hasDoubleExtension a.filename = true
  · simp [evaluate, AttachmentMeta.Rejected, executable, double]
  by_cases locked : a.isArchive = true ∧ a.isEncrypted = true
  · simp [evaluate, AttachmentMeta.Rejected, AttachmentMeta.Quarantined, executable, double, locked]
  have archive : ¬ (a.isArchive && a.isEncrypted) = true := by simpa using locked
  cases mime : allowedMime a.mimeType <;>
    simp [evaluate, AttachmentMeta.Rejected, AttachmentMeta.Quarantined, executable, double, locked,
      archive, mime]

theorem single_reject : single a = .reject ↔ a.Rejected := by
  rw [single, evaluate_cons]
  split
  · simp [*]
  · split <;> simp [*, evaluate]

theorem single_quarantine : single a = .quarantine ↔ a.Quarantined := by
  rw [single, evaluate_cons]
  split
  · rename_i rejected
    simp [AttachmentMeta.Quarantined, rejected]
  · split <;> simp [*, evaluate]

theorem single_found : single a ≠ ⊥ ↔ a.Rejected ∨ a.Quarantined := by
  rw [← single_reject, ← single_quarantine]
  change single a ≠ .allow ↔ _
  cases single a <;> simp

theorem evaluate_first (attachments : List AttachmentMeta) :
    (evaluate attachments).verdict = firstFinding single attachments := by
  induction attachments with
  | nil => rfl
  | cons a attachments ih =>
      rw [evaluate_cons, firstFinding_cons, ih]
      by_cases rejected : a.Rejected
      · rw [if_pos rejected, if_neg (single_found.mpr (.inl rejected)), single_reject.mpr rejected]
      · rw [if_neg rejected]
        by_cases quarantined : a.Quarantined
        · rw [if_pos quarantined, if_neg (single_found.mpr (.inr quarantined)),
            single_quarantine.mpr quarantined]
        · rw [if_neg quarantined, if_pos (not_not.mp fun found =>
            (single_found.mp found).elim rejected quarantined)]

end Single

/-! ## Lists of attachments -/

/-- It is not let through. -/
def AttachmentMeta.Held (a : AttachmentMeta) : Prop := a.Rejected ∨ a.Quarantined

instance : DecidablePred AttachmentMeta.Held := fun _ => inferInstanceAs (Decidable (_ ∨ _))

/-- The first attachment that is not let through. -/
def firstHeld (attachments : List AttachmentMeta) : Option AttachmentMeta :=
  attachments.find? (·.Held)

section Lists

variable {attachments : List AttachmentMeta} {a : AttachmentMeta}

theorem evaluate_held : (firstHeld attachments = none ∧ (evaluate attachments).verdict = .allow) ∨
    ∃ a ∈ attachments, firstHeld attachments = some a ∧ a.Held ∧
      (evaluate attachments).verdict = single a := by
  have same : (evaluate attachments).verdict = ((firstHeld attachments).map single).getD ⊥ := by
    rw [evaluate_first, firstFinding_find fun _ => single_found]
    rfl
  rw [same]
  cases found : firstHeld attachments with
  | none => exact .inl ⟨rfl, rfl⟩
  | some a =>
      have held := List.find?_some found
      exact .inr ⟨a, List.mem_of_find?_eq_some found, rfl, by simpa using held, rfl⟩

theorem single_le_reject : single a ≤ .reject := by
  cases single a <;> decide

theorem single_le_quarantine : single a ≤ .quarantine ↔ ¬ a.Rejected := by
  rw [← single_reject]
  cases single a <;> decide

theorem evaluate_reject :
    (evaluate attachments).verdict = .reject ↔ ∃ r, firstHeld attachments = some r ∧ r.Rejected := by
  rcases @evaluate_held attachments with ⟨nothing, allowed⟩ | ⟨a, -, first, -, verdict⟩
  · simp [nothing, allowed]
  · simp [first, verdict, single_reject]

theorem evaluate_worst : (evaluate attachments).verdict = worst single attachments ↔
    ∀ q, firstHeld attachments = some q → q.Quarantined → ∀ r ∈ attachments, ¬ r.Rejected := by
  rw [evaluate_first, firstFinding_eq_worst, ← evaluate_first]
  rcases @evaluate_held attachments with ⟨nothing, allowed⟩ | ⟨a, -, first, held, verdict⟩
  · have clear : ∀ a ∈ attachments, ¬ a.Held := by simpa [firstHeld] using nothing
    refine iff_of_true (fun a member => ?_) (by simp [nothing])
    have allow : single a = ⊥ := by
      by_contra found
      exact clear a member (single_found.mp found)
    rw [allow]
    exact bot_le
  · simp only [verdict, first, Option.some.injEq, forall_eq']
    rcases held with rejected | quarantined
    · refine iff_of_true (fun b _ => ?_) fun quarantined => absurd rejected quarantined.1
      rw [single_reject.mpr rejected]
      exact single_le_reject
    · simp only [single_quarantine.mpr quarantined, single_le_quarantine, quarantined, true_imp_iff]

theorem evaluate_perm : (∀ reordered, attachments.Perm reordered →
      (evaluate reordered).verdict = (evaluate attachments).verdict) ↔
    ∀ q ∈ attachments, ∀ r ∈ attachments, q.Quarantined → ¬ r.Rejected := by
  simp only [evaluate_first, firstFinding_perm, single_found]
  constructor
  · intro alike q memberQ r memberR quarantined rejected
    have same := alike q memberQ r memberR (.inr quarantined) (.inl rejected)
    rw [single_quarantine.mpr quarantined, single_reject.mpr rejected] at same
    cases same
  · intro apart a memberA b memberB heldA heldB
    rcases heldA with rejectedA | quarantinedA
    · rcases heldB with rejectedB | quarantinedB
      · rw [single_reject.mpr rejectedA, single_reject.mpr rejectedB]
      · exact absurd rejectedA (apart b memberB a memberA quarantinedB)
    · rcases heldB with rejectedB | quarantinedB
      · exact absurd rejectedB (apart a memberA b memberB quarantinedA)
      · rw [single_quarantine.mpr quarantinedA, single_quarantine.mpr quarantinedB]

theorem evaluate_insert : (∀ front a back, front ++ back = attachments →
      (evaluate attachments).verdict ≤ (evaluate (front ++ a :: back)).verdict) ↔
    ∀ r, firstHeld attachments = some r → ¬ r.Rejected := by
  have rejects : (∀ r, firstHeld attachments = some r → ¬ r.Rejected) ↔
      (evaluate attachments).verdict ≠ .reject := by
    rw [ne_eq, evaluate_reject]
    simp
  rw [rejects]
  simp only [evaluate_first, firstFinding_insert]
  constructor
  · intro least
    have quarantined : single ⟨[], [], false, false⟩ = .quarantine := by decide
    have below := least ⟨[], [], false, false⟩ (by rw [quarantined]; decide)
    rw [quarantined] at below
    rintro reject
    rw [reject] at below
    exact absurd below (by decide)
  · intro other a found
    cases verdict : firstFinding single attachments with
    | allow => exact bot_le
    | quarantine =>
        cases alone : single a with
        | allow => exact absurd alone found
        | quarantine => exact le_refl _
        | reject => decide
    | reject => exact absurd verdict other

end Lists

/-- Three laws, and when each of them holds. The verdict on a list is the worst one on its
    attachments if and only if none of them is rejected where the first one that is held is
    quarantined. It is the same in every order if and only if no attachment is quarantined
    while another one is rejected. It does not get milder by one more attachment, wherever
    that stands, if and only if the first one that is held is not rejected. -/
theorem worst_verdict_iff (attachments : List AttachmentMeta) :
    ((evaluate attachments).verdict = worst single attachments ↔
      ∀ q, firstHeld attachments = some q → q.Quarantined → ∀ r ∈ attachments, ¬ r.Rejected) ∧
    ((∀ reordered, attachments.Perm reordered →
        (evaluate reordered).verdict = (evaluate attachments).verdict) ↔
      ∀ q ∈ attachments, ∀ r ∈ attachments, q.Quarantined → ¬ r.Rejected) ∧
    ((∀ front a back, front ++ back = attachments →
        (evaluate attachments).verdict ≤ (evaluate (front ++ a :: back)).verdict) ↔
      ∀ r, firstHeld attachments = some r → ¬ r.Rejected) :=
  ⟨evaluate_worst, evaluate_perm, evaluate_insert⟩

/-- A web page, and then a program. -/
theorem program_behind_page :
    (evaluate [⟨ascii "a.html", ascii "text/html", false, false⟩,
      ⟨ascii "a.exe", ascii "text/plain", false, false⟩]).verdict = .quarantine ∧
    worst single [⟨ascii "a.html", ascii "text/html", false, false⟩,
      ⟨ascii "a.exe", ascii "text/plain", false, false⟩] = .reject ∧
    (evaluate [⟨ascii "a.exe", ascii "text/plain", false, false⟩,
      ⟨ascii "a.html", ascii "text/html", false, false⟩]).verdict = .reject := by
  decide +kernel

end EmailServer.Policy
