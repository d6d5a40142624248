import Mathlib.Data.List.Infix
import EmailServer.Core.InputValidator
import EmailServer.Library.Sanitizing

/-! # The sanitizers and their validators

Erasing `..` can bring two other dots together, and erasing a backslash can do so when the
loop is over. What comes out of a repair is therefore checked again, and only that makes the
result safe.
-/

namespace EmailServer.Core.InputValidator

open Bytes (find)

section Usernames

variable {s : Bytes}

theorem sanitizeUsername_eq : sanitizeUsername s = (s.filter usernameChar).take 64 := by
  unfold sanitizeUsername
  dsimp only
  split
  · rfl
  · rename_i short
    exact (List.take_of_length_le (Nat.le_of_not_lt short)).symm

theorem sanitizeUsername_sanitizes :
    Sanitizes (fun s => isValidUsername s = true) [] sanitizeUsername := by
  have cut := Sanitizes.filter_take usernameChar 64
  have valid : (fun s => isValidUsername s = true) =
      fun s => s ≠ [] ∧ s.length ≤ 64 ∧ ∀ c ∈ s, usernameChar c = true :=
    funext fun _ => propext isValidUsername_iff
  have same : sanitizeUsername = fun s => (s.filter usernameChar).take 64 :=
    funext fun _ => sanitizeUsername_eq
  rw [valid, same]
  exact cut

end Usernames

section Paths

variable {inside : Bytes → Bool} {path : Bytes}

theorem containsPathTraversal_false : containsPathTraversal path = false ↔
    ¬ ascii ".." <:+: path ∧ ¬ ascii "//" <:+: path ∧ ¬ ascii "\\" <:+: path ∧
      path.head? ≠ some 47 := by
  simp [containsPathTraversal, ← Bytes.find_isSome_iff, and_assoc]

theorem isValidPath_iff : isValidPath inside path = true ↔
    path ≠ [] ∧ containsPathTraversal path = false ∧ inside path = true := by
  unfold isValidPath
  cases path with
  | nil => simp
  | cons c rest => cases containsPathTraversal (c :: rest) <;> simp

theorem eraseDotDot_keeps (absent : ¬ ascii ".." <:+: path) : eraseDotDot path = path := by
  rw [← Bytes.find_eq_none_iff] at absent
  rw [eraseDotDot]
  split
  · rfl
  · rename_i found
    rw [absent] at found
    cases found

theorem repair_keeps (clean : containsPathTraversal path = false) :
    ((eraseDotDot path).filter (· != 92)).dropWhile (· == 47) = path := by
  obtain ⟨dots, -, backslash, slash⟩ := containsPathTraversal_false.mp clean
  have none_ : 92 ∉ path := fun there => backslash ((List.singleton_infix_iff 92 path).mpr there)
  rw [eraseDotDot_keeps dots, List.filter_eq_self.mpr (Bytes.bne_of_not_mem none_)]
  cases path with
  | nil => rfl
  | cons c rest =>
      have other : c ≠ 47 := by simpa using slash
      exact List.dropWhile_cons_of_neg (by simpa using other)

theorem sanitizePath_sanitizes (inside : Bytes → Bool) :
    Sanitizes (fun path => isValidPath inside path = true) [] (sanitizePath inside) := by
  have checked := @Sanitizes.checked _ (fun path => isValidPath inside path = true) []
    (fun path => ((eraseDotDot path).filter (· != 92)).dropWhile (· == 47)) _
    (fun path valid => repair_keeps (isValidPath_iff.mp valid).2.1) (repair_keeps (by decide))
  have same : sanitizePath inside = fun path =>
      if isValidPath inside (((eraseDotDot path).filter (· != 92)).dropWhile (· == 47)) = true then
        ((eraseDotDot path).filter (· != 92)).dropWhile (· == 47)
      else [] := by
    funext path
    unfold sanitizePath
    dsimp only
    cases isValidPath inside (((eraseDotDot path).filter (· != 92)).dropWhile (· == 47)) <;> rfl
  rw [same]
  exact checked

end Paths

/-- Each sanitizer gives nothing or what its validator accepts, keeps what the validator accepts,
    and does no more the second time. No sanitized path has a step up, a backslash or a slash
    in front. -/
theorem sanitizers_project (inside : Bytes → Bool) :
    (∀ s, (sanitizeUsername s = [] ∨ isValidUsername (sanitizeUsername s) = true) ∧
      (isValidUsername s = true → sanitizeUsername s = s) ∧
      sanitizeUsername (sanitizeUsername s) = sanitizeUsername s) ∧
    ∀ p, (sanitizePath inside p = [] ∨ isValidPath inside (sanitizePath inside p) = true) ∧
      (isValidPath inside p = true → sanitizePath inside p = p) ∧
      sanitizePath inside (sanitizePath inside p) = sanitizePath inside p ∧
      ¬ ascii ".." <:+: sanitizePath inside p ∧ ¬ ascii "\\" <:+: sanitizePath inside p ∧
      (sanitizePath inside p).head? ≠ some 47 := by
  have usernames := sanitizeUsername_sanitizes
  have paths := sanitizePath_sanitizes inside
  refine ⟨fun s => ⟨usernames.lands s, usernames.keeps s, usernames.idem s⟩, fun p => ?_⟩
  have clean : containsPathTraversal (sanitizePath inside p) = false := by
    rcases paths.lands p with nothing | valid
    · rw [nothing]
      decide
    · exact (isValidPath_iff.mp valid).2.1
  obtain ⟨dots, -, backslash, slash⟩ := containsPathTraversal_false.mp clean
  exact ⟨paths.lands p, paths.keeps p, paths.idem p, dots, backslash, slash⟩

end EmailServer.Core.InputValidator
