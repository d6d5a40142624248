import EmailServer.Imap.FlagsIndex
import EmailServer.Library.Trace

/-! # Which saved flags stay saved

`save` writes the file from memory alone, so what an earlier `save` wrote stays on disk
exactly when it has come back to memory since memory was last lost.
-/

namespace EmailServer.Imap

open Bytes

/-! ## Writing and reading a mailbox -/

namespace FlagsIndex

variable {mailbox : MailboxFlags} {entries : List (Bytes × List Bytes)}

theorem parseLine_print {msgId : Bytes} {flags : List Bytes} (isWord : IsWord msgId)
    (areWords : ∀ flag ∈ flags, IsWord flag) :
    parseLine (msgId ++ flags.flatMap (space :: ·)) = some (msgId, flags.toFinset) := by
  rw [parseLine, words_join isWord areWords]

theorem word_no_lf {word : Bytes} (isWord : IsWord word) : lf ∉ word :=
  fun inside => absurd (isWord.2 lf inside) (by decide)

/-- Ids and flags are words. A message without flags was read from a file, where no text
    stream finds the byte that ends it. -/
def Clean (mailbox : MailboxFlags) : Prop :=
  ∀ msgId flags, mailbox.lookup msgId = some flags →
    IsWord msgId ∧ (∀ flag ∈ flags, IsWord flag) ∧ (flags = ∅ → ctrlZ ∉ msgId)

/-- Each entry is put into the mailbox. -/
def putEntries (mailbox : MailboxFlags) (entries : List (Bytes × List Bytes)) : MailboxFlags :=
  entries.foldl (fun m entry => m.insert entry.1 entry.2.toFinset) mailbox

theorem parseFlags_print (areWords : ∀ entry ∈ entries, IsWord entry.1 ∧ ∀ flag ∈ entry.2, IsWord flag) :
    parseFlags (printFlags entries) = putEntries ∅ entries := by
  have lines : printFlags entries =
      (entries.map fun entry => entry.1 ++ entry.2.flatMap (space :: ·)).flatMap (· ++ [lf]) := by
    simp [printFlags, printLine, List.flatMap_map]
  have clean : ∀ line ∈ entries.map fun entry => entry.1 ++ entry.2.flatMap (space :: ·),
      lf ∉ line := by
    intro line member inside
    obtain ⟨entry, there, rfl⟩ := List.mem_map.mp member
    obtain ⟨isWord, areWords⟩ := areWords entry there
    rcases List.mem_append.mp inside with inId | inFlags
    · exact word_no_lf isWord inId
    · obtain ⟨flag, isFlag, inFlag⟩ := List.mem_flatMap.mp inFlags
      rcases List.mem_cons.mp inFlag with impossible | inFlag
      · exact absurd impossible (by decide)
      · exact word_no_lf (areWords flag isFlag) inFlag
  rw [parseFlags, lines, getlines_join clean, List.foldl_map, putEntries]
  refine List.foldl_ext _ _ _ fun m entry there => ?_
  obtain ⟨isWord, areWords⟩ := areWords entry there
  rw [addLine, parseLine_print isWord areWords]

theorem lookup_putEntries_absent {msgId : Bytes} (absent : msgId ∉ entries.map Prod.fst) :
    (putEntries mailbox entries).lookup msgId = mailbox.lookup msgId := by
  induction entries generalizing mailbox with
  | nil => rfl
  | cons entry entries ih =>
      obtain ⟨other, absent⟩ := List.ne_and_not_mem_of_not_mem_cons absent
      exact (ih absent).trans (Finmap.lookup_insert_of_ne mailbox other)

theorem lookup_putEntries {entry : Bytes × List Bytes} (keys : (entries.map Prod.fst).Nodup)
    (there : entry ∈ entries) :
    (putEntries mailbox entries).lookup entry.1 = some entry.2.toFinset := by
  induction entries generalizing mailbox with
  | nil => cases there
  | cons first entries ih =>
      obtain ⟨fresh, keys⟩ := List.nodup_cons.mp keys
      rcases List.mem_cons.mp there with rfl | later
      · exact (lookup_putEntries_absent fresh).trans (Finmap.lookup_insert mailbox)
      · exact ih keys later

/-- Whatever the order, all of the mailbox is read back and nothing else. -/
theorem parseFlags_iterates (iterates : Iterates mailbox entries) (clean : Clean mailbox) :
    parseFlags (printFlags entries) = mailbox := by
  have areWords : ∀ entry ∈ entries, IsWord entry.1 ∧ ∀ flag ∈ entry.2, IsWord flag := by
    intro entry there
    obtain ⟨isWord, flags, -⟩ := clean entry.1 _ (iterates.flags entry there).2
    exact ⟨isWord, fun flag inside => flags flag (List.mem_toFinset.mpr inside)⟩
  rw [parseFlags_print areWords]
  refine Finmap.ext_lookup fun msgId => ?_
  by_cases isKey : msgId ∈ entries.map Prod.fst
  · obtain ⟨entry, there, rfl⟩ := List.mem_map.mp isKey
    rw [lookup_putEntries iterates.keys there, (iterates.flags entry there).2]
  · have absent : msgId ∉ mailbox := fun there => isKey (iterates.all msgId there)
    rw [lookup_putEntries_absent isKey, Finmap.lookup_eq_none.mpr absent]
    exact Finmap.lookup_empty msgId

theorem readText_whole {raw : Bytes} (clean : ctrlZ ∉ raw) : readText raw = raw := by
  rw [readText, List.takeWhile_eq_self_iff]
  intro c inside
  rw [bne_iff_ne]
  rintro rfl
  exact clean inside

theorem readText_clean (raw : Bytes) : ctrlZ ∉ readText raw := by
  intro inside
  have passed := List.mem_takeWhile_imp inside
  simp at passed

/-- A text stream can read what was written, unless an id or a flag ends it. -/
theorem printFlags_clean (clean : ∀ entry ∈ entries, ctrlZ ∉ entry.1 ∧ ∀ flag ∈ entry.2, ctrlZ ∉ flag) :
    ctrlZ ∉ printFlags entries := by
  intro inside
  obtain ⟨entry, there, inLine⟩ := List.mem_flatMap.mp inside
  obtain ⟨cleanId, cleanFlags⟩ := clean entry there
  rcases List.mem_append.mp inLine with inWords | inEnd
  · rcases List.mem_append.mp inWords with inId | inFlags
    · exact cleanId inId
    · obtain ⟨flag, isFlag, inFlag⟩ := List.mem_flatMap.mp inFlags
      rcases List.mem_cons.mp inFlag with impossible | inFlag
      · exact absurd impossible (by decide)
      · exact cleanFlags flag isFlag inFlag
  · exact absurd (List.mem_singleton.mp inEnd) (by decide)

theorem iterates_exists (mailbox : MailboxFlags) : ∃ entries, Iterates mailbox entries := by
  have keys : (mailbox.keys.toList.map fun msgId =>
      (msgId, (flagsOf mailbox msgId).toList)).map Prod.fst = mailbox.keys.toList := by
    simp [Function.comp_def]
  refine ⟨_, ⟨keys ▸ mailbox.keys.nodup_toList, ?_, ?_⟩⟩
  · intro entry there
    obtain ⟨msgId, isKey, rfl⟩ := List.mem_map.mp there
    obtain ⟨flags, found⟩ := Finmap.mem_iff.mp (Finmap.mem_keys.mp (Finset.mem_toList.mp isKey))
    exact ⟨Finset.nodup_toList _, by simp [flagsOf, found]⟩
  · intro msgId there
    rw [keys]
    exact Finset.mem_toList.mpr (Finmap.mem_keys.mpr there)

variable {index : FlagsIndex} {user user' msgId msgId' flag flag' text : Bytes}

theorem flagsOf_eq : flagsOf mailbox msgId = (mailbox.lookup msgId).getD ∅ := by
  rw [flagsOf]
  cases mailbox.lookup msgId <;> rfl

theorem getFlags_eq :
    index.getFlags user msgId = flagsOf ((index.data.lookup user).getD ∅) msgId := by
  rw [getFlags]
  cases index.data.lookup user <;> simp [flagsOf_eq]

theorem flagsOf_insert {flags : Finset Bytes} :
    flagsOf (mailbox.insert msgId' flags) msgId =
      if msgId = msgId' then flags else flagsOf mailbox msgId := by
  by_cases same : msgId = msgId'
  · subst same
    simp [flagsOf_eq]
  · simp [flagsOf_eq, same, Finmap.lookup_insert_of_ne mailbox same]

theorem getFlags_insert :
    ({ data := index.data.insert user' mailbox } : FlagsIndex).getFlags user msgId =
      if user = user' then flagsOf mailbox msgId else index.getFlags user msgId := by
  by_cases same : user = user'
  · subst same
    simp [getFlags_eq]
  · simp [getFlags_eq, same, Finmap.lookup_insert_of_ne index.data same]

/-! ## What is in memory -/

theorem mem_addFlag : flag ∈ (index.addFlag user' msgId' flag').getFlags user msgId ↔
    (user' = user ∧ msgId' = msgId ∧ flag' = flag) ∨ flag ∈ index.getFlags user msgId := by
  rw [addFlag, getFlags_insert, getFlags_eq]
  by_cases sameUser : user = user'
  · subst sameUser
    rw [if_pos rfl, flagsOf_insert]
    by_cases sameId : msgId = msgId'
    · subst sameId
      simp [flagsOf_eq, eq_comm]
    · simp [sameId, Ne.symm sameId]
  · simp [sameUser, Ne.symm sameUser]

theorem mem_loadMailbox {file : Option Bytes} :
    flag ∈ (index.loadMailbox user' file).getFlags user msgId ↔
      if user = user' then flag ∈ flagsOf ((file.map fun raw => parseFlags (readText raw)).getD ∅) msgId
      else flag ∈ index.getFlags user msgId := by
  rw [loadMailbox, getFlags_insert]
  split <;> rfl

/-! ## Ids and flags are words -/

theorem clean_empty : Clean ∅ := by
  intro msgId flags found
  simp at found

theorem Clean.insert {mailbox : MailboxFlags} {flags : Finset Bytes} (clean : Clean mailbox)
    (isWord : IsWord msgId) (areWords : ∀ flag ∈ flags, IsWord flag)
    (bare : flags = ∅ → ctrlZ ∉ msgId) : Clean (mailbox.insert msgId flags) := by
  intro other flags' found
  by_cases same : other = msgId
  · subst same
    obtain rfl : flags = flags' := by simpa using found
    exact ⟨isWord, areWords, bare⟩
  · rw [Finmap.lookup_insert_of_ne mailbox same] at found
    exact clean other flags' found

theorem parseFlags_words {flags : Finset Bytes} (found : (parseFlags text).lookup msgId = some flags) :
    ∃ line ∈ getlines lf text, msgId ∈ words line ∧ ∀ flag ∈ flags, flag ∈ words line := by
  have fold : ∀ (lines : List Bytes) (mailbox : MailboxFlags),
      (lines.foldl addLine mailbox).lookup msgId = some flags →
        mailbox.lookup msgId = some flags ∨
          ∃ line ∈ lines, msgId ∈ words line ∧ ∀ flag ∈ flags, flag ∈ words line := by
    intro lines
    induction lines with
    | nil => exact fun _ found => .inl found
    | cons line lines ih =>
        intro mailbox found
        rcases ih _ found with here | ⟨other, there, read⟩
        · simp only [addLine, parseLine] at here
          cases split : words line with
          | nil =>
              rw [split] at here
              exact .inl here
          | cons first rest =>
              rw [split] at here
              by_cases same : msgId = first
              · subst same
                obtain rfl : rest.toFinset = flags := by simpa using here
                exact .inr ⟨line, List.mem_cons_self, by simp [split],
                  fun flag inside => by simp [split, List.mem_toFinset.mp inside]⟩
              · exact .inl (by simpa [Finmap.lookup_insert_of_ne mailbox same] using here)
        · exact .inr ⟨other, List.mem_cons_of_mem line there, read⟩
  exact (fold _ ∅ found).resolve_left (by simp)

theorem parseFlags_within {flags : Finset Bytes} (found : (parseFlags text).lookup msgId = some flags) :
    msgId ⊆ text ∧ ∀ flag ∈ flags, flag ⊆ text := by
  obtain ⟨line, there, isId, areFlags⟩ := parseFlags_words found
  exact ⟨List.Subset.trans (words_within isId) (getlines_within there),
    fun flag inside => List.Subset.trans (words_within (areFlags flag inside)) (getlines_within there)⟩

theorem readText_parse_clean (raw : Bytes) : Clean (parseFlags (readText raw)) := by
  intro msgId flags found
  obtain ⟨line, -, isId, areFlags⟩ := parseFlags_words found
  exact ⟨words_isWord isId, fun flag inside => words_isWord (areFlags flag inside),
    fun _ ends => readText_clean raw ((parseFlags_within found).1 ends)⟩

end FlagsIndex

namespace FlagsSystem

open FlagsIndex

variable {F : Type} [DecidableEq F] {file : Bytes → F} {s t : FlagsSystem F}
  {event : FlagsEvent} {user msgId flag : Bytes}

/-- The flag of the message is in the file of the user. -/
def OnDisk (file : Bytes → F) (s : FlagsSystem F) (user msgId flag : Bytes) : Prop :=
  flag ∈ flagsOf (((s.disk (file user)).map parseFlags).getD ∅) msgId

/-- A text stream finds it there. -/
def Readable (file : Bytes → F) (s : FlagsSystem F) (user msgId flag : Bytes) : Prop :=
  flag ∈ flagsOf (((s.disk (file user)).map fun raw => parseFlags (readText raw)).getD ∅) msgId

/-- The step brings the flag to memory: it is added, or read from the file. -/
def Brings (file : Bytes → F) (user msgId flag : Bytes) (x : Taken FlagsEvent (FlagsSystem F)) : Prop :=
  x.label = .addFlag user msgId flag ∨
    x.label = .loadMailbox user true ∧ Readable file x.before user msgId flag

/-- The memory of the user is lost: by a restart, or by a `loadMailbox`, which clears it
    before it reads. -/
def Clears (user : Bytes) (x : Taken FlagsEvent (FlagsSystem F)) : Prop :=
  x.label = .restart ∨ ∃ opens, x.label = .loadMailbox user opens

theorem mem_step (step : Step file s event t) : flag ∈ t.index.getFlags user msgId ↔
    Brings file user msgId flag ⟨event, s, t⟩ ∨
      ¬ Clears user ⟨event, s, t⟩ ∧ flag ∈ s.index.getFlags user msgId := by
  cases step with
  | addFlag => simp [Brings, Clears, mem_addFlag]
  | @loadMailbox user' opens =>
      rw [mem_loadMailbox]
      by_cases same : user = user'
      · subst same
        cases opens with
        | true => simp [Brings, Clears, Readable]
        | false => simp [Brings, Clears, flagsOf_eq]
      · simp [Brings, Clears, same, Ne.symm same]
  | save | cannotSave => simp [Brings, Clears]
  | restart => simp [Brings, Clears, getFlags]

/-- The memory holds what has been brought there since it was last lost. -/
theorem memory {files : F → Option Bytes} {past : List (Taken FlagsEvent (FlagsSystem F))}
    (trace : Trace (Step file) { disk := files } past s) (user msgId flag : Bytes) :
    flag ∈ s.index.getFlags user msgId ↔
      Since (Brings file user msgId flag) (Clears user) past := by
  induction trace with
  | nil => simp [getFlags]
  | snoc _ step ih => rw [mem_step step, Since.concat, ih]

/-- The message ids and flags that are added are words. -/
def Tidy : FlagsEvent → Prop
  | .addFlag _ msgId flag => IsWord msgId ∧ IsWord flag
  | _ => True

/-- Those in memory are. -/
def CleanIndex (index : FlagsIndex) : Prop :=
  ∀ user mailbox, index.data.lookup user = some mailbox → Clean mailbox

theorem CleanIndex.insert {index : FlagsIndex} {mailbox : MailboxFlags} (clean : CleanIndex index)
    (isClean : Clean mailbox) : CleanIndex { data := index.data.insert user mailbox } := by
  intro other mailbox' found
  by_cases same : other = user
  · subst same
    obtain rfl : mailbox = mailbox' := by simpa using found
    exact isClean
  · rw [Finmap.lookup_insert_of_ne index.data same] at found
    exact clean other mailbox' found

theorem clean_step (clean : CleanIndex s.index) (tidy : Tidy event) (step : Step file s event t) :
    CleanIndex t.index := by
  cases step with
  | @addFlag user msgId flag =>
      have there : Clean ((s.index.data.lookup user).getD ∅) := by
        cases found : s.index.data.lookup user with
        | none => exact clean_empty
        | some mailbox => exact clean user mailbox found
      refine clean.insert (there.insert tidy.1 (fun flag' inside => ?_) fun empty => ?_)
      · rcases Finset.mem_insert.mp inside with rfl | old
        · exact tidy.2
        · cases found : ((s.index.data.lookup user).getD ∅).lookup msgId with
          | none => simp [found] at old
          | some flags =>
              rw [found] at old
              exact (there msgId flags found).2.1 flag' old
      · exact absurd empty (Finset.insert_ne_empty _ _)
  | @loadMailbox user opens =>
      refine clean.insert ?_
      cases (if opens then s.disk (file user) else none : Option Bytes) with
      | none => exact clean_empty
      | some raw => exact readText_parse_clean raw
  | save | cannotSave => exact clean
  | restart => exact fun _ _ found => by simp at found

theorem clean_trace {files : F → Option Bytes} {past : List (Taken FlagsEvent (FlagsSystem F))}
    (trace : Trace (Step file) { disk := files } past s) (tidy : ∀ x ∈ past, Tidy x.label) :
    CleanIndex s.index := by
  induction trace with
  | nil => exact fun _ _ found => by simp at found
  | snoc _ step ih =>
      obtain ⟨earlier, here⟩ := List.forall_mem_append.mp tidy
      exact clean_step (ih earlier) (here _ List.mem_cons_self) step

theorem onDisk_saved (clean : CleanIndex s.index) (step : Step file s (.save user true) t) :
    OnDisk file t user msgId flag ↔ flag ∈ s.index.getFlags user msgId := by
  cases step with
  | @save user text prints =>
      simp only [OnDisk, Function.update_self, Option.map_some, Option.getD_some, getFlags_eq]
      cases found : s.index.data.lookup user with
      | none =>
          simp only [Prints, found] at prints
          subst prints
          rfl
      | some mailbox =>
          simp only [Prints, found] at prints
          obtain ⟨entries, iterates, rfl⟩ := prints
          rw [parseFlags_iterates iterates (clean user mailbox found), Option.getD_some]

/-- No id or flag of the user that is in memory has the byte that ends a text stream. -/
def Readables (index : FlagsIndex) (user : Bytes) : Prop :=
  ∀ msgId flag, flag ∈ index.getFlags user msgId → ctrlZ ∉ msgId ∧ ctrlZ ∉ flag

theorem saved_readable (clean : CleanIndex s.index) (readable : Readables s.index user)
    (step : Step file s (.save user true) t) :
    Readable file t user msgId flag ↔ OnDisk file t user msgId flag := by
  cases step with
  | @save user text prints =>
      have whole : ctrlZ ∉ text := by
        cases found : s.index.data.lookup user with
        | none =>
            simp only [Prints, found] at prints
            simp [prints]
        | some mailbox =>
            simp only [Prints, found] at prints
            obtain ⟨entries, iterates, rfl⟩ := prints
            refine printFlags_clean fun entry there => ?_
            have stored := (iterates.flags entry there).2
            have held : ∀ flag ∈ entry.2, ctrlZ ∉ entry.1 ∧ ctrlZ ∉ flag := by
              intro flag inside
              apply readable
              rw [getFlags_eq, found, Option.getD_some, flagsOf_eq, stored, Option.getD_some]
              exact List.mem_toFinset.mpr inside
            refine ⟨?_, fun flag inside => (held flag inside).2⟩
            cases flags : entry.2 with
            | nil => exact (clean user mailbox found entry.1 _ stored).2.2 (by simp [flags])
            | cons flag rest => exact (held flag (by simp [flags])).1
      simp [Readable, OnDisk, readText_whole whole]

omit [DecidableEq F] in
theorem readable_clean (readable : Readable file s user msgId flag) : ctrlZ ∉ msgId ∧ ctrlZ ∉ flag := by
  rw [Readable] at readable
  cases there : s.disk (file user) with
  | none => simp [there, flagsOf_eq] at readable
  | some raw =>
      rw [there, Option.map_some, Option.getD_some, flagsOf_eq] at readable
      cases found : (parseFlags (readText raw)).lookup msgId with
      | none => simp [found] at readable
      | some flags =>
          rw [found, Option.getD_some] at readable
          obtain ⟨isId, areFlags⟩ := parseFlags_within found
          exact ⟨fun inside => readText_clean raw (isId inside),
            fun inside => readText_clean raw (areFlags flag readable inside)⟩

/-- Whatever the order that `save` goes through a mailbox in: saving it and loading it again
    changes no flags, of this user or of another, if and only if no id or flag of the user has
    the byte that ends a text stream. -/
theorem flags_reloaded_iff {files : F → Option Bytes} {past : List (Taken FlagsEvent (FlagsSystem F))}
    {v : FlagsSystem F} (trace : Trace (Step file) { disk := files } past s)
    (tidy : ∀ x ∈ past, Tidy x.label) (saves : Step file s (.save user true) t)
    (loads : Step file t (.loadMailbox user true) v) :
    (∀ other msgId, v.index.getFlags other msgId = s.index.getFlags other msgId) ↔
      Readables s.index user := by
  have clean := clean_trace trace tidy
  have here : ∀ {msgId flag}, flag ∈ v.index.getFlags user msgId ↔ Readable file t user msgId flag := by
    intro msgId flag
    simp [mem_step loads, Brings, Clears]
  constructor
  · intro same msgId flag there
    rw [← same, here] at there
    exact readable_clean there
  · intro readable other msgId
    ext flag
    by_cases same : other = user
    · subst same
      rw [here, saved_readable clean readable saves, onDisk_saved clean saves]
    · simp [mem_step loads, mem_step saves, Brings, Clears, Ne.symm same]

/-- An earlier `save` of the user wrote the flag. -/
def Wrote (file : Bytes → F) (user msgId flag : Bytes) (x : Taken FlagsEvent (FlagsSystem F)) : Prop :=
  x.label = .save user true ∧ OnDisk file x.after user msgId flag

/-- At a `save`, what an earlier one of the same user wrote is on disk again. -/
def Kept (file : Bytes → F) (past : List (Taken FlagsEvent (FlagsSystem F)))
    (x : Taken FlagsEvent (FlagsSystem F)) : Prop :=
  ∀ user msgId flag, x.label = .save user true → (∃ y ∈ past, Wrote file user msgId flag y) →
    OnDisk file x.after user msgId flag

/-- At a `save`, what an earlier one of the same user wrote has been brought back to memory
    since that was last lost. -/
def BroughtBack (file : Bytes → F) (past : List (Taken FlagsEvent (FlagsSystem F)))
    (x : Taken FlagsEvent (FlagsSystem F)) : Prop :=
  ∀ user msgId flag, x.label = .save user true → (∃ y ∈ past, Wrote file user msgId flag y) →
    Since (Brings file user msgId flag) (Clears user) past

theorem kept_iff {files : F → Option Bytes} {past : List (Taken FlagsEvent (FlagsSystem F))}
    (trace : Trace (Step file) { disk := files } past s) (tidy : ∀ x ∈ past, Tidy x.label)
    (step : Step file s event t) :
    Kept file past ⟨event, s, t⟩ ↔ BroughtBack file past ⟨event, s, t⟩ := by
  have clean := clean_trace trace tidy
  have same (user msgId flag : Bytes) (isSave : event = .save user true) :
      OnDisk file t user msgId flag ↔ Since (Brings file user msgId flag) (Clears user) past := by
    subst isSave
    rw [onDisk_saved clean step, memory trace]
  constructor
  · intro kept user msgId flag isSave wrote
    exact (same user msgId flag isSave).mp (kept user msgId flag isSave wrote)
  · intro brought user msgId flag isSave wrote
    exact (same user msgId flag isSave).mpr (brought user msgId flag isSave wrote)

/-- In a run from any files, saved flags stay saved if and only if before each `save` of a
    user, each flag that an earlier one wrote has been added again, or found in the file by
    `loadMailbox`, since the memory was last lost. -/
theorem flags_kept_iff {files : F → Option Bytes} {past : List (Taken FlagsEvent (FlagsSystem F))}
    (trace : Trace (Step file) { disk := files } past s) (tidy : ∀ x ∈ past, Tidy x.label) :
    Along (Kept file) [] past ↔ Along (BroughtBack file) [] past := by
  induction trace with
  | nil => exact Iff.rfl
  | snoc earlier step ih =>
      obtain ⟨tidyBefore, -⟩ := List.forall_mem_append.mp tidy
      rw [along_concat, along_concat, ih tidyBefore, List.nil_append,
        kept_iff earlier tidyBefore step]

/-! ## Runs -/

theorem save_exists (file : Bytes → F) (s : FlagsSystem F) (user : Bytes) :
    ∃ t, Step file s (.save user true) t := by
  have prints : ∃ text, s.index.Prints user text := by
    simp only [Prints]
    cases s.index.data.lookup user with
    | none => exact ⟨[], rfl⟩
    | some mailbox =>
        obtain ⟨entries, iterates⟩ := iterates_exists mailbox
        exact ⟨_, entries, iterates, rfl⟩
  obtain ⟨text, prints⟩ := prints
  exact ⟨_, .save prints⟩

theorem add_exists (file : Bytes → F) (s : FlagsSystem F) (user msgId flag : Bytes) :
    ∃ t, Step file s (.addFlag user msgId flag) t ∧ t.index = s.index.addFlag user msgId flag :=
  ⟨_, .addFlag, rfl⟩

/-- Saved, restarted, and saved again with the flag of another message. -/
theorem lost {one two flag : Bytes} (file : Bytes → F) (user : Bytes) (isOne : IsWord one)
    (isTwo : IsWord two) (isFlag : IsWord flag) (different : two ≠ one) :
    ∃ past s, Trace (Step file) { disk := fun _ => none } past s ∧
      past.map Taken.label = [.addFlag user one flag, .save user true, .restart,
        .addFlag user two flag, .save user true] ∧
      (∀ x ∈ past, Tidy x.label) ∧ ¬ Along (Kept file) [] past := by
  obtain ⟨s, adds, sIndex⟩ := add_exists file { disk := fun _ => none } user one flag
  obtain ⟨t, saves⟩ := save_exists file s user
  obtain ⟨u, addsNext, uIndex⟩ := add_exists file { disk := t.disk } user two flag
  obtain ⟨v, savesNext⟩ := save_exists file u user
  have first : Trace (Step file) { disk := fun _ => none } _ s := Trace.nil.snoc adds
  have third := ((first.snoc saves).snoc .restart).snoc addsNext
  have tidy : Tidy (.addFlag user one flag) ∧ Tidy (.addFlag user two flag) :=
    ⟨⟨isOne, isFlag⟩, isTwo, isFlag⟩
  refine ⟨_, v, third.snoc savesNext, rfl, by simpa [Tidy] using tidy, fun along => ?_⟩
  have clean := clean_trace first (by simpa [Tidy] using tidy.1)
  have written : OnDisk file t user one flag := by
    rw [onDisk_saved clean saves, sIndex, mem_addFlag]
    exact .inl ⟨rfl, rfl, rfl⟩
  have still := (along_concat.mp along).2 user one flag rfl
    ⟨⟨.save user true, s, t⟩, by simp, rfl, written⟩
  have clean := clean_trace third (by simpa [Tidy] using tidy)
  rw [onDisk_saved clean savesNext, uIndex, mem_addFlag] at still
  rcases still with ⟨-, other, -⟩ | before
  · exact different other
  · simp [getFlags] at before

omit [DecidableEq F] in
theorem broughtBack_other {file : Bytes → F} {past : List (Taken FlagsEvent (FlagsSystem F))}
    {x : Taken FlagsEvent (FlagsSystem F)} (other : ∀ user, x.label ≠ .save user true) :
    BroughtBack file past x := fun user _ _ isSave => absurd isSave (other user)

theorem readables_first {one flag : Bytes} {files : F → Option Bytes}
    (adds : Step file { disk := files } (.addFlag user one flag) s)
    (cleanId : ctrlZ ∉ one) (cleanFlag : ctrlZ ∉ flag) : Readables s.index user := by
  intro msgId flag' inside
  rw [mem_step adds] at inside
  rcases inside with (isAdded | ⟨isLoaded, -⟩) | ⟨-, before⟩
  · cases isAdded
    exact ⟨cleanId, cleanFlag⟩
  · cases isLoaded
  · simp [getFlags] at before

/-- The same with a `loadMailbox` after the restart. -/
theorem loaded {one two flag : Bytes} (file : Bytes → F) (user : Bytes) (isOne : IsWord one)
    (isTwo : IsWord two) (isFlag : IsWord flag) (cleanId : ctrlZ ∉ one) (cleanFlag : ctrlZ ∉ flag) :
    ∃ past s, Trace (Step file) { disk := fun _ => none } past s ∧
      past.map Taken.label = [.addFlag user one flag, .save user true, .restart,
        .loadMailbox user true, .addFlag user two flag, .save user true] ∧
      (∀ x ∈ past, Tidy x.label) ∧ Along (BroughtBack file) [] past := by
  obtain ⟨s, adds, -⟩ := add_exists file { disk := fun _ => none } user one flag
  have clean := clean_trace (Trace.nil.snoc adds) (by simpa [Tidy] using ⟨isOne, isFlag⟩)
  have readable := readables_first adds cleanId cleanFlag
  obtain ⟨t, saves⟩ := save_exists file s user
  obtain ⟨r, loads⟩ : ∃ r, Step file { disk := t.disk } (.loadMailbox user true) r :=
    ⟨_, .loadMailbox⟩
  obtain ⟨u, addsNext, -⟩ := add_exists file r user two flag
  obtain ⟨v, savesNext⟩ := save_exists file u user
  have run : Trace (Step file) { disk := fun _ => none } _ v :=
    (((((Trace.nil.snoc adds).snoc saves).snoc .restart).snoc loads).snoc addsNext).snoc savesNext
  refine ⟨_, v, run, rfl, ?_, ?_⟩
  · have tidy : Tidy (.addFlag user one flag) ∧ Tidy (.addFlag user two flag) :=
      ⟨⟨isOne, isFlag⟩, isTwo, isFlag⟩
    simpa [Tidy] using tidy
  · simp only [along_concat]
    refine ⟨⟨⟨⟨⟨⟨trivial, ?_⟩, ?_⟩, ?_⟩, ?_⟩, ?_⟩, ?_⟩
    · exact broughtBack_other (by simp)
    · rintro user' msgId flag' isSave ⟨y, there, isFirst, -⟩
      simp only [List.nil_append, List.mem_singleton] at there
      subst there
      cases isFirst
    · exact broughtBack_other (by simp)
    · exact broughtBack_other (by simp)
    · exact broughtBack_other (by simp)
    · rintro user' msgId flag' isSave ⟨y, there, isFirst, onDisk⟩
      obtain rfl : y = ⟨.save user true, s, t⟩ := by
        simp only [List.nil_append, List.cons_append, List.mem_cons, List.not_mem_nil,
          or_false] at there
        rcases there with rfl | rfl | rfl | rfl | rfl
        · cases isFirst
        · rfl
        · cases isFirst
        · cases isFirst
        · cases isFirst
      cases isFirst
      -- the flag is read from the file, and adding another one loses nothing
      refine Since.concat.mpr (.inr ⟨by simp [Clears], ?_⟩)
      exact Since.concat.mpr (.inl (.inr ⟨rfl, (saved_readable clean readable saves).mpr onDisk⟩))

def bob : Bytes := ascii "bob"

def seen : Bytes := ascii "\\Seen"

/-- The flags files under a Windows root. -/
def flagsFile : Bytes → FsPath := mailboxFlagsPath PathSyntax.windows (ascii "mail_root")

theorem one_isWord : IsWord (ascii "1") := by decide

theorem two_isWord : IsWord (ascii "2") := by decide

theorem seen_isWord : IsWord seen := by decide

/-- Bob's flags are the same after the mailbox has been saved and loaded. -/
theorem flags_reloaded_bob : ∃ s t v : FlagsSystem FsPath,
    Step flagsFile s (.save bob true) t ∧ Step flagsFile t (.loadMailbox bob true) v ∧
      seen ∈ s.index.getFlags bob (ascii "1") ∧
      ∀ other msgId, v.index.getFlags other msgId = s.index.getFlags other msgId := by
  obtain ⟨s, adds, added⟩ := add_exists flagsFile { disk := fun _ => none } bob (ascii "1") seen
  obtain ⟨t, saves⟩ := save_exists flagsFile s bob
  obtain ⟨v, loads⟩ : ∃ v, Step flagsFile t (.loadMailbox bob true) v := ⟨_, .loadMailbox⟩
  refine ⟨s, t, v, saves, loads, ?_, ?_⟩
  · rw [added, mem_addFlag]
    exact .inl ⟨rfl, rfl, rfl⟩
  · refine (flags_reloaded_iff (Trace.nil.snoc adds) ?_ saves loads).mpr ?_
    · simpa [Tidy] using ⟨one_isWord, seen_isWord⟩
    · exact readables_first adds (by decide) (by decide)

/-- A flag with the byte 0x1A in it. -/
def cutFlag : Bytes := ascii "a" ++ [ctrlZ] ++ ascii "b"

theorem cutFlag_isWord : IsWord cutFlag := by decide

/-- It is not the same after the mailbox has been saved and loaded. -/
theorem flag_not_reloaded : ∃ past, ∃ s t v : FlagsSystem FsPath,
    Trace (Step flagsFile) { disk := fun _ => none } past s ∧ (∀ x ∈ past, Tidy x.label) ∧
      Step flagsFile s (.save bob true) t ∧ Step flagsFile t (.loadMailbox bob true) v ∧
      cutFlag ∈ s.index.getFlags bob (ascii "1") ∧ cutFlag ∉ v.index.getFlags bob (ascii "1") := by
  obtain ⟨s, adds, added⟩ := add_exists flagsFile { disk := fun _ => none } bob (ascii "1") cutFlag
  obtain ⟨t, saves⟩ := save_exists flagsFile s bob
  obtain ⟨v, loads⟩ : ∃ v, Step flagsFile t (.loadMailbox bob true) v := ⟨_, .loadMailbox⟩
  refine ⟨_, s, t, v, Trace.nil.snoc adds, ?_, saves, loads, ?_, fun found => ?_⟩
  · simpa [Tidy] using ⟨one_isWord, cutFlag_isWord⟩
  · rw [added, mem_addFlag]
    exact .inl ⟨rfl, rfl, rfl⟩
  · rw [mem_step loads] at found
    rcases found with (isAdded | ⟨-, readable⟩) | ⟨notCleared, -⟩
    · cases isAdded
    · exact absurd (readable_clean readable).2 (by decide)
    · exact notCleared (.inr ⟨true, rfl⟩)

/-- Bob's first flag is gone. -/
theorem flags_lost : ∃ past s, Trace (Step flagsFile) { disk := fun _ => none } past s ∧
    past.map Taken.label = [.addFlag bob (ascii "1") seen, .save bob true, .restart,
      .addFlag bob (ascii "2") seen, .save bob true] ∧
    (∀ x ∈ past, Tidy x.label) ∧ ¬ Along (Kept flagsFile) [] past :=
  lost flagsFile bob one_isWord two_isWord seen_isWord (by decide)

/-- Bob's first flag stays. -/
theorem flags_kept_loaded : ∃ past s, Trace (Step flagsFile) { disk := fun _ => none } past s ∧
    past.map Taken.label = [.addFlag bob (ascii "1") seen, .save bob true, .restart,
      .loadMailbox bob true, .addFlag bob (ascii "2") seen, .save bob true] ∧
    Along (Kept flagsFile) [] past := by
  obtain ⟨past, s, run, labels, tidy, brought⟩ :=
    loaded flagsFile bob one_isWord two_isWord seen_isWord (by decide) (by decide)
  exact ⟨past, s, run, labels, (flags_kept_iff run tidy).mpr brought⟩

end FlagsSystem

end EmailServer.Imap
