import EmailServer.Library.Codec
import EmailServer.Library.History

/-! # Write-through stores

Of every result that it is given, a store keeps a part under the key of the result, in memory and
in a file, which is written anew each time. After a restart it has what is in the file. What the
store says of a key can be held against the last result that it was given for it.
-/

namespace EmailServer.WriteThrough

/-- How the writing ended. After an exception the old file is there, and a file that was written
in part holds a text of its own. -/
inductive Saved where
  | written
  | torn (text : Bytes)
  | threw
  deriving DecidableEq

inductive Event (ρ : Type) where
  | put (result : ρ) (saved : Saved)
  | restart
  deriving DecidableEq

/-- What is known under the keys. -/
abbrev Table (κ β : Type) := Finmap fun _ : κ => β

structure Store (κ β : Type) where
  memory : Table κ β := ∅
  file : Option Bytes := none

variable {κ β ρ : Type} (codec : Codec (Table κ β)) (key : ρ → κ) (keep : ρ → β)

/-- A file that cannot be read is as good as none. -/
def load (file : Option Bytes) : Table κ β := (file.bind codec.decode).getD ∅

/-- The file after the writing of a table. -/
def Saved.file (table : Table κ β) (before : Option Bytes) : Saved → Option Bytes
  | .written => some (codec.encode table)
  | .torn text => some text
  | .threw => before

/-- The file has been written, or cannot be read. -/
def Event.Saves : Event ρ → Prop
  | .put _ .written => True
  | .put _ (.torn text) => codec.decode text = none
  | .put _ .threw => False
  | .restart => True

variable [DecidableEq κ]

def step (s : Store κ β) : Event ρ → Store κ β
  | .put result saved =>
      let table := s.memory.insert (key result) (keep result)
      ⟨table, saved.file codec table s.file⟩
  | .restart => ⟨load codec s.file, s.file⟩

/-- The store after these events, when there was no file before them. -/
def run (events : List (Event ρ)) : Store κ β := events.foldl (step codec key keep) {}

/-- The result that is put under a key. -/
def putUnder (k : κ) : Event ρ → Option ρ
  | .put result _ => if key result = k then some result else none
  | .restart => none

/-- A table has nothing but parts of last results. -/
def Recent (past : List (Event ρ)) (table : Table κ β) : Prop :=
  ∀ k b, table.lookup k = some b → ∃ result, latest (putUnder key k) past = some result ∧
    keep result = b

section Runs

variable {codec key keep} {past events : List (Event ρ)} {table : Table κ β} {result : ρ}
  {saved : Saved}

theorem run_concat {event : Event ρ} :
    run codec key keep (past ++ [event]) = step codec key keep (run codec key keep past) event := by
  simp [run]

theorem recent_empty : Recent key keep past (∅ : Table κ β) := fun _ _ found => by
  rw [Finmap.lookup_empty] at found
  cases found

theorem Recent.put (recent : Recent key keep past table) :
    Recent key keep (past ++ [.put result saved]) (table.insert (key result) (keep result)) := by
  intro k b found
  rw [latest_concat, putUnder]
  by_cases same : key result = k
  · subst same
    rw [Finmap.lookup_insert] at found
    exact ⟨result, by simp, Option.some.inj found⟩
  · rw [Finmap.lookup_insert_of_ne table (Ne.symm same)] at found
    rw [if_neg same, Option.none_or]
    exact recent k b found

theorem Recent.restart (recent : Recent key keep past table) :
    Recent key keep (past ++ [.restart]) table := by
  intro k b found
  rw [latest_concat]
  exact recent k b found

/-- Memory and file are up to date as long as no writing throws. -/
theorem run_recent (saves : ∀ event ∈ events, event.Saves codec) :
    Recent key keep events (run codec key keep events).memory ∧
      Recent key keep events (load codec (run codec key keep events).file) := by
  induction events using List.reverseRecOn with
  | nil => exact ⟨recent_empty, recent_empty⟩
  | append_singleton past event ih =>
      obtain ⟨earlier, here⟩ := List.forall_mem_append.mp saves
      obtain ⟨memory, file⟩ := ih earlier
      have saves := List.forall_mem_singleton.mp here
      rw [run_concat]
      cases event with
      | restart => exact ⟨file.restart, file.restart⟩
      | put result saved =>
          have table : Recent key keep (past ++ [.put result saved]) _ := memory.put
          refine ⟨table, ?_⟩
          cases saved with
          | written =>
              simp only [step, Saved.file, load, Option.bind_some, codec.decode_encode,
                Option.getD_some]
              exact table
          | torn text =>
              simp only [step, Saved.file, load, Option.bind_some,
                show codec.decode text = none from saves, Option.getD_none]
              exact recent_empty
          | threw => exact saves.elim

end Runs

/-! ## What the store says -/

/-- What the store says is said of results that deserve it: the last ones. -/
def Reports (asserts : β → Prop) (deserves : ρ → Prop) (past : List (Event ρ)) (s : Store κ β) : Prop :=
  ∀ k b, s.memory.lookup k = some b → asserts b →
    ∃ result, latest (putUnder key k) past = some result ∧ deserves result

section Right

variable {codec key keep} {asserts : β → Prop} {deserves : ρ → Prop} {events : List (Event ρ)}

/-- Where the store is right throughout, each single result that was put is kept right. -/
theorem reports_kept (reports : ∀ past, past <+: events →
      Reports key asserts deserves past (run codec key keep past)) {result : ρ} {saved : Saved}
    (member : .put result saved ∈ events) (said : asserts (keep result)) : deserves result := by
  obtain ⟨before, later, rfl⟩ := List.append_of_mem member
  have isPast : before ++ [.put result saved] <+: before ++ .put result saved :: later :=
    ⟨later, by simp⟩
  have found : (run codec key keep (before ++ [.put result saved])).memory.lookup (key result) =
      some (keep result) := by
    rw [run_concat]
    exact Finmap.lookup_insert _
  obtain ⟨last, isLast, deserved⟩ := reports _ isPast _ _ found said
  rw [latest_concat, putUnder, if_pos rfl, Option.some_or] at isLast
  rwa [Option.some.inj isLast]

/-- In runs without exceptions the store is right throughout if each single result is. -/
theorem kept_reports (saves : ∀ event ∈ events, event.Saves codec)
    (right : ∀ result saved, .put result saved ∈ events → asserts (keep result) → deserves result) :
    ∀ past, past <+: events → Reports key asserts deserves past (run codec key keep past) := by
  intro past isPast k b found said
  have known : Recent key keep past (run codec key keep past).memory :=
    (run_recent fun event member => saves event (isPast.subset member)).1
  obtain ⟨result, isLast, rfl⟩ := known k b found
  obtain ⟨event, member, read⟩ := latest_mem isLast
  cases event with
  | restart => simp [putUnder] at read
  | put other saved =>
      have same : other = result := by
        simp only [putUnder, Option.ite_none_right_eq_some, Option.some.injEq] at read
        exact read.2
      subst same
      exact ⟨other, isLast, right other saved (isPast.subset member) said⟩

end Right

end EmailServer.WriteThrough
