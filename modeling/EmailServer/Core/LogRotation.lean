import EmailServer.Core.Logger

/-! # Log rotation

A rotation is a cascade of renames over six numbers, with the log itself as the newest value.
Over a whole run the numbered files are the last six contents of the log, and together with
the log they are all that has been written, less what is older than that.
-/

namespace EmailServer.Core

open Cascade (move cascade Holds)

/-- Every file can be renamed. -/
def LogIo.Renames (io : LogIo) : Prop := ∀ old next, io.renames old next = true

/-- The log is at `path`, and files can be renamed. -/
def LogEvent.Sound (path : Bytes) : LogEvent → Prop
  | .setLevel _ => True
  | .setFile _ p => p = path
  | .log io _ _ _ => io.Renames

namespace Logger

section Calls

variable {io : LogIo} {base path old next p : Bytes} {files : LogFiles} {s : Logger} {i k : Nat}

theorem rotated_injective : Function.Injective fun k => rotated path (k + 1) := by
  intro m n same
  exact Nat.succ_injective (toDecimal_injective (List.append_cancel_left same))

theorem rotated_ne : path ≠ rotated path k := by
  intro same
  have lengths := congrArg List.length same
  simp [rotated, ascii] at lengths

theorem renameIfThere_eq (renames : io.Renames) :
    renameIfThere io old next files = .ok (move old next files) := by
  unfold renameIfThere move
  rw [renames]
  cases files old <;> rfl

theorem shift_eq (renames : io.Renames) :
    shift io base i files = .ok (cascade (fun k => rotated base (k + 1)) i files) := by
  induction i generalizing files with
  | zero => rfl
  | succ i ih =>
      rw [shift, renameIfThere_eq renames, cascade]
      exact ih

theorem rotateIfNeeded_early (early : ¬ s.Due) : rotateIfNeeded io s = .ok s := by
  have skips : (!s.isOpen || decide (s.fileSize < maxSize)) = true := by
    rw [Due, not_and_or] at early
    simpa using early
  rw [rotateIfNeeded, if_pos (by simpa using skips)]

theorem rotateIfNeeded_due (renames : io.Renames) (due : s.Due) :
    rotateIfNeeded io s = .ok { s with
      isOpen := io.opens
      fileSize := 0
      files := openAppend io.opens s.logPath (move s.logPath (rotated s.logPath 1)
        (cascade (fun k => rotated s.logPath (k + 1)) 5 s.files)) } := by
  have goesOn : ¬ (!s.isOpen || decide (s.fileSize < maxSize)) = true := by
    simpa [due.1] using due.2
  rw [rotateIfNeeded, if_neg (by simpa using goesOn), shift_eq renames]
  simp only [Except.bind, renameIfThere_eq renames]

theorem openAppend_other {opens : Bool} (other : p ≠ path) :
    openAppend opens path files p = files p := by
  unfold openAppend
  split
  · exact Function.update_of_ne other ..
  · rfl

theorem openAppend_text {opens : Bool} :
    (openAppend opens path files path).getD [] = (files path).getD [] := by
  unfold openAppend
  split
  · rw [Function.update_self, Option.getD_some]
  · rfl

end Calls

/-- `cs` have been rotated, of which the last six are kept, and `text` has been written. -/
structure Inv (path : Bytes) (disk : LogFiles) (cs : List Bytes) (text : Bytes) (s : Logger) : Prop where
  opened : s.isOpen = true → s.logPath = path ∧ (s.files path).isSome
  slots : Holds (fun k => rotated path (k + 1)) 6 cs s.files
  others : ∀ p, p ≠ path → (∀ k < 6, p ≠ rotated path (k + 1)) → s.files p = disk p
  whole : (disk path).getD [] ++ text = cs.flatten ++ (s.files path).getD []

section Run

variable {path text added : Bytes} {disk : LogFiles} {cs : List Bytes} {s t : Logger} {io : LogIo}

theorem Inv.base (inv : Inv path disk cs text s)
    (opened : t.isOpen = true → t.logPath = path ∧ (t.files path).isSome)
    (other : ∀ p, p ≠ path → t.files p = s.files p)
    (appended : (t.files path).getD [] = (s.files path).getD [] ++ added) :
    Inv path disk cs (text ++ added) t where
  opened := opened
  slots k := by rw [other _ (Ne.symm rotated_ne), inv.slots k]
  others p outside free := by rw [other p outside, inv.others p outside free]
  whole := by rw [appended, ← List.append_assoc, ← List.append_assoc, inv.whole]

theorem Inv.setFile (inv : Inv path disk cs text s) (opens : Bool) :
    Inv path disk cs text (setFile opens path s) := by
  have kept := @Inv.base path text [] disk cs s (Logger.setFile opens path s) inv
    (by
      rintro rfl
      exact ⟨rfl, by simp [Logger.setFile, openAppend]⟩)
    (fun p other => openAppend_other other)
    (by rw [List.append_nil]; exact openAppend_text)
  rwa [List.append_nil] at kept

theorem Inv.write (inv : Inv path disk cs text s) :
    Inv path disk cs (text ++ if s.isOpen then added else []) (writeToStream added s) := by
  unfold writeToStream
  split
  · rename_i isOpen
    obtain ⟨rfl, -⟩ := inv.opened isOpen
    exact inv.base (fun _ => ⟨rfl, by simp⟩) (fun p other => Function.update_of_ne other ..) (by simp)
  · exact inv.base inv.opened (fun _ _ => rfl) (by simp)

/-- What a rotation does. -/
theorem Inv.rotate (inv : Inv path disk cs text s) (renames : io.Renames) (due : s.Due) :
    ∃ c t, rotateIfNeeded io s = .ok t ∧ s.files s.logPath = some c ∧
      Inv path disk (cs ++ [c]) text t ∧ t.isOpen = io.opens ∧
      t.files path = if io.opens then some [] else none := by
  obtain ⟨rfl, there⟩ := inv.opened due.1
  obtain ⟨c, there⟩ := Option.isSome_iff_exists.mp there
  have outside : ∀ k, s.logPath ≠ rotated s.logPath (k + 1) := fun k => rotated_ne
  have emptied := @Cascade.move_src _ _ _ s.logPath (rotated s.logPath 1)
    (cascade (fun k => rotated s.logPath (k + 1)) 5 s.files) rotated_ne
  have log : openAppend io.opens s.logPath (move s.logPath (rotated s.logPath 1)
      (cascade (fun k => rotated s.logPath (k + 1)) 5 s.files)) s.logPath =
      if io.opens then some [] else none := by
    unfold openAppend
    split
    · rw [Function.update_self, emptied, Option.getD_none]
    · exact emptied
  refine ⟨c, _, rotateIfNeeded_due renames due, there, ⟨?_, ?_, ?_, ?_⟩, rfl, log⟩
  · intro isOpen
    have isOpen : io.opens = true := isOpen
    refine ⟨rfl, ?_⟩
    dsimp only
    rw [log, isOpen]
    rfl
  · intro k
    have next := inv.slots.next rotated_injective outside there k
    dsimp only
    rw [openAppend_other (Ne.symm rotated_ne)]
    exact next
  · intro p other free
    dsimp only
    rw [openAppend_other other]
    rw [← inv.others p other free]
    exact Cascade.next_other (fun k below => free k (by omega)) other
  · dsimp only
    rw [log, inv.whole, there]
    cases io.opens <;> simp

theorem Inv.step (inv : Inv path disk cs text s) {event : LogEvent} (sound : event.Sound path) :
    Inv path disk (cs ++ (rotatedContent s event).toList) (text ++ writtenLine s event)
      (step s event) := by
  cases event with
  | setLevel level =>
      have kept : Inv path disk cs text (Logger.step s (.setLevel level)) :=
        ⟨inv.opened, inv.slots, inv.others, inv.whole⟩
      simpa [rotatedContent, writtenLine] using kept
  | setFile opens p =>
      obtain rfl := sound
      have kept : Inv p disk cs text (Logger.step s (.setFile opens p)) := inv.setFile opens
      simpa [rotatedContent, writtenLine] using kept
  | log io level message stamp =>
      simp only [rotatedContent, writtenLine, Logger.step, Logger.log]
      by_cases below : level.rank < s.level.rank
      · simpa [below] using inv
      by_cases due : s.Due
      · obtain ⟨c, t, rotates, content, inv, -⟩ := inv.rotate sound due
        have wrote := @Inv.write path text (line level message stamp) disk _ t inv
        simp only [below, due, rotates, content, not_true, or_self, if_false, Option.toList_some]
        exact ⟨wrote.opened, wrote.slots, wrote.others, wrote.whole⟩
      · have wrote := @Inv.write path text (line level message stamp) disk cs s inv
        simp only [below, due, rotateIfNeeded_early due, not_false_eq_true, or_true, if_true,
          if_false, Option.toList_none, List.append_nil]
        exact ⟨wrote.opened, wrote.slots, wrote.others, wrote.whole⟩

theorem run_inv {past : History} (fresh : ∀ k, disk (rotated path k) = none)
    (trace : Trace Logger.Step { files := disk } past s) (sound : ∀ x ∈ past, x.label.Sound path) :
    Inv path disk (contents past) (written past) s := by
  have initial : Inv path disk (contents []) (written []) { files := disk } := by
    refine ⟨by simp, fun k => ?_, fun _ _ _ => rfl, by simp [contents, written]⟩
    dsimp only
    rw [fresh (k + 1)]
    simp [contents]
  have kept := @Trace.invariant _ _ Logger.Step _ _ _
    (fun past s => Inv path disk (contents past) (written past) s) (fun _ x => x.label.Sound path) trace
    (along_forall.mpr sound) initial
  refine (kept ?_).1
  rintro past s event t inv rfl sound
  have next := inv.step sound
  have rotates : contents (past ++ [⟨event, s, Logger.step s event⟩]) =
      contents past ++ (rotatedContent s event).toList := by
    cases content : rotatedContent s event <;> simp [contents, content]
  have writes : written (past ++ [⟨event, s, Logger.step s event⟩]) =
      written past ++ writtenLine s event := by simp [written]
  rw [rotates, writes]
  exact next

end Run

/-! ## What the files hold -/

/-- The numbered files hold the contents that were rotated, the newest in the first one. There
    are six at most, and no other file has changed. -/
structure Rotations (path : Bytes) (disk : LogFiles) (contents : List Bytes) (files : LogFiles) :
    Prop where
  kept : ∀ k, 1 ≤ k → k ≤ min contents.length 6 →
    files (rotated path k) = contents[contents.length - k]?
  others : ∀ p, p ≠ path → (∀ k, 1 ≤ k → k ≤ min contents.length 6 → p ≠ rotated path k) →
    files p = disk p

/-- The text of the numbered files and of the log, oldest first. -/
def keptText (path : Bytes) (files : LogFiles) : Bytes :=
  (List.range 6).reverse.flatMap (fun k => (files (rotated path (k + 1))).getD []) ++
    (files path).getD []

section Files

variable {path text : Bytes} {disk : LogFiles} {cs : List Bytes} {s : Logger} {past : History}

theorem Inv.rotations (inv : Inv path disk cs text s) (fresh : ∀ k, disk (rotated path k) = none) :
    Rotations path disk cs s.files where
  kept k first last := by
    obtain ⟨k, rfl⟩ := Nat.exists_eq_add_of_le' first
    rw [inv.slots k, if_pos (by omega), List.getElem?_reverse (by omega)]
    congr 1
    omega
  others p other free := by
    by_cases numbered : ∃ k < 6, p = rotated path (k + 1)
    · obtain ⟨k, small, rfl⟩ := numbered
      have beyond : cs.length ≤ k := by
        by_contra inside
        exact free (k + 1) (by omega) (by omega) rfl
      rw [inv.slots k, if_pos small, fresh, List.getElem?_eq_none_iff, List.length_reverse]
      exact beyond
    · exact inv.others p other fun k small same => numbered ⟨k, small, same⟩

theorem Inv.lost (inv : Inv path disk cs text s) :
    (disk path).getD [] ++ text = (cs.take (cs.length - 6)).flatten ++ keptText path s.files := by
  have newest : (List.range 6).reverse.flatMap (fun k => (s.files (rotated path (k + 1))).getD []) =
      (cs.drop (cs.length - 6)).flatten := by
    rw [← Cascade.newest_eq_drop]
    apply List.flatMap_congr
    intro k member
    rw [inv.slots k, if_pos (by simpa using member)]
  rw [inv.whole, keptText, newest, ← List.append_assoc, ← List.flatten_append, List.take_append_drop]

/-- In every run, the numbered files are the last contents of the log, and all that has been
    written is there but what is older than six rotations. Then a rotation makes the log the
    newest one of them, and begins a new log. -/
theorem rotations_kept (fresh : ∀ k, disk (rotated path k) = none)
    (trace : Trace Logger.Step { files := disk } past s) (sound : ∀ x ∈ past, x.label.Sound path) :
    Rotations path disk (contents past) s.files ∧
    (disk path).getD [] ++ written past =
      ((contents past).take ((contents past).length - 6)).flatten ++ keptText path s.files ∧
    ∀ io : LogIo, io.Renames → s.Due → ∃ c t, rotateIfNeeded io s = .ok t ∧
      s.files s.logPath = some c ∧ Rotations path disk (contents past ++ [c]) t.files ∧
      t.files path = if io.opens then some [] else none := by
  have inv := run_inv fresh trace sound
  refine ⟨inv.rotations fresh, inv.lost, fun io renames due => ?_⟩
  obtain ⟨c, t, rotates, content, next, -, log⟩ := inv.rotate renames due
  exact ⟨c, t, rotates, content, next.rotations fresh, log⟩

def server : Bytes := ascii "server"

/-- Every file can be renamed and opened. -/
def noFailure : LogIo := ⟨fun _ _ => true, true⟩

/-- The log has this content before it is opened. -/
def logged (big : Bytes) : LogFiles := fun p => if p = server then some big else none

def opened (big : Bytes) : Logger := Logger.step { files := logged big } (.setFile true server)

/-- A large log is rotated by a message, which makes it large again. -/
def message (big : Bytes) : LogEvent := .log noFailure .info big []

theorem opened_due {big : Bytes} (large : maxSize ≤ big.length) : (opened big).Due := by
  refine ⟨rfl, ?_⟩
  simpa [opened, Logger.step, setFile, openAppend, logged] using large

theorem message_due {big : Bytes} (large : maxSize ≤ big.length) :
    (Logger.step (opened big) (message big)).logPath = server ∧
      (Logger.step (opened big) (message big)).Due := by
  have rotates := @rotateIfNeeded_due noFailure (opened big) (fun _ _ => rfl) (opened_due large)
  have level : ¬ LogLevel.info.rank < (opened big).level.rank := Nat.lt_irrefl _
  rw [message, Logger.step, Logger.log, if_neg level, rotates]
  refine ⟨?_, ?_, ?_⟩
  · simp [writeToStream, noFailure, opened, Logger.step, setFile]
  · simp [writeToStream, noFailure]
  · dsimp only
    omega

/-- After two rotations the first content has the second number. -/
theorem large_rotated_twice : ∃ big t,
    rotateIfNeeded noFailure (Logger.step (opened big) (message big)) = .ok t ∧
    t.files (rotated server 2) = some big ∧
    t.files (rotated server 1) = (Logger.step (opened big) (message big)).files server ∧
    t.files server = some [] := by
  obtain ⟨big, large⟩ : ∃ big : Bytes, maxSize ≤ big.length :=
    ⟨List.replicate maxSize 65, List.length_replicate.ge⟩
  have fresh : ∀ k, logged big (rotated server k) = none := fun k => if_neg (Ne.symm rotated_ne)
  let past : History := [⟨.setFile true server, { files := logged big }, opened big⟩,
    ⟨message big, opened big, Logger.step (opened big) (message big)⟩]
  have trace : Trace Logger.Step { files := logged big } past (Logger.step (opened big) (message big)) :=
    .snoc (.snoc .nil rfl) rfl
  have sound : ∀ x ∈ past, x.label.Sound server := by
    rintro x member
    rcases List.mem_pair.mp member with rfl | rfl
    · exact rfl
    · exact fun _ _ => rfl
  obtain ⟨-, -, again⟩ := rotations_kept fresh trace sound
  obtain ⟨path, due⟩ := message_due large
  obtain ⟨c, t, rotates, newest, rotations, log⟩ := again noFailure (fun _ _ => rfl) due
  have first : contents past = [big] := by
    have level : ¬ (LogLevel.info.rank < (opened big).level.rank ∨ ¬ (opened big).Due) :=
      not_or.mpr ⟨Nat.lt_irrefl _, not_not.mpr (opened_due large)⟩
    have content : (opened big).files (opened big).logPath = some big := by
      simp [opened, Logger.step, setFile, openAppend, logged]
    simp [past, contents, rotatedContent, message, level, content]
  rw [first] at rotations
  rw [path] at newest
  refine ⟨big, t, rotates, rotations.kept 2 (by simp) (by simp), ?_, log⟩
  rw [newest]
  exact rotations.kept 1 (by simp) (by simp)

end Files

end Logger

end EmailServer.Core
