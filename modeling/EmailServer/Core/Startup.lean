import Mathlib.Data.List.Induction
import EmailServer.Core.AppLifecycle

/-! # Starting up

`initialize` calls `shutdown` when an `init` fails, and both lock the mutex. So the
start-up comes through only if nothing fails.
-/

namespace EmailServer.Core

open AppLifecycle

variable {sort : StdSort Subsystem} {registered : List Subsystem} {l m : AppLifecycle}

/-- The subsystems whose `init` was called, in order. -/
def inits (calls : List SubsystemCall) : List Subsystem :=
  calls.filterMap fun
    | .init s => some s
    | .shutdown _ => none

/-- The subsystems whose shutdown was called, in order. -/
def shutdowns (calls : List SubsystemCall) : List Subsystem :=
  calls.filterMap fun
    | .shutdown s => some s
    | .init _ => none

/-- A new life cycle on which these subsystems were registered, one after another. -/
inductive Registered (sort : StdSort Subsystem) : List Subsystem → AppLifecycle → Prop
  | new : Registered sort [] {}
  | add {registered l s m} : Registered sort registered l →
      registerSubsystem sort s l = .returned () m → Registered sort (registered ++ [s]) m

/-- The start-up calls the inits by phase, up to the first that fails. If one fails, it
    returns false, and what has been initialized is shut down, each subsystem once, the
    higher orders first. -/
structure StartsUp (registered : List Subsystem) (value : Bool) (after : AppLifecycle) : Prop where
  byPhase : (inits after.calls).Pairwise fun s t => s.phase.value ≤ t.phase.value
  upToFailure : ∀ s ∈ (inits after.calls).dropLast, s.succeeds = true
  complete : (∀ s ∈ inits after.calls, s.succeeds = true) → (inits after.calls).Perm registered
  rollsBack : (∃ s ∈ inits after.calls, s.succeeds = false) → value = false ∧
    (shutdowns after.calls).Perm ((inits after.calls).filter fun s => s.succeeds && s.hasShutdown) ∧
    ((shutdowns after.calls).Pairwise fun s t => s.shutdownOrder ≥ t.shutdownOrder) ∧
    after.state = .stopped

/-- Registering sorts, and does nothing else. -/
structure Prepared (registered : List Subsystem) (l : AppLifecycle) : Prop where
  whole : l = { subsystems := l.subsystems }
  perm : l.subsystems.Perm registered
  byPhase : l.subsystems.Pairwise fun s t => s.phase.value ≤ t.phase.value

theorem registered_prepared (registers : Registered sort registered l) : Prepared registered l := by
  induction registers with
  | new => exact ⟨rfl, .refl _, .nil⟩
  | @add registered l s m _ call ih =>
      obtain ⟨subsystems, rfl⟩ : ∃ subsystems, l = { subsystems := subsystems } := ⟨_, ih.whole⟩
      simp only [registerSubsystem, guarded] at call
      obtain rfl : _ = m := by simpa [unlocked] using call
      exact ⟨rfl, (sort.perm _ _).trans (ih.perm.append_right [s]), sort.sorted _ _⟩

theorem registers (sort : StdSort Subsystem) (registered : List Subsystem) :
    ∃ l, Registered sort registered l := by
  induction registered using List.reverseRecOn with
  | nil => exact ⟨_, .new⟩
  | append_singleton registered s ih =>
      obtain ⟨l, registers⟩ := ih
      obtain ⟨subsystems, rfl⟩ : ∃ subsystems, l = { subsystems := subsystems } :=
        ⟨_, (registered_prepared registers).whole⟩
      exact ⟨_, .add registers rfl⟩

theorem initLoop_succeeds {rest : List Subsystem} (succeed : ∀ s ∈ rest, s.succeeds = true) :
    initLoop sort rest l = .returned true { l with
      state := .ready
      initialized := l.initialized ++ rest
      calls := l.calls ++ rest.map .init } := by
  induction rest generalizing l with
  | nil => simp [initLoop]
  | cons s rest ih =>
      obtain ⟨first, later⟩ := List.forall_mem_cons.mp succeed
      have returns : s.init = .returned true := by simpa [Subsystem.succeeds] using first
      simp only [initLoop, returns]
      rw [ih later]
      simp

/-- The first failure blocks, when the inits before it have been called and nothing has
    been shut down. -/
theorem initLoop_fails {before after : List Subsystem} {s : Subsystem} (locked : l.locked = true)
    (succeed : ∀ s ∈ before, s.succeeds = true) (fails : s.succeeds = false) :
    initLoop sort (before ++ s :: after) l = .blocked { l with
      initialized := l.initialized ++ before
      calls := l.calls ++ (before ++ [s]).map .init } := by
  induction before generalizing l with
  | nil =>
      have stuck : ∀ calls, shutdown sort { l with calls := calls } =
          .blocked { l with calls := calls } := by
        intro calls
        simp [shutdown, guarded, locked]
      have other : s.init ≠ .returned true := by simpa [Subsystem.succeeds] using fails
      rw [List.nil_append, initLoop]
      simp only [stuck]
      split
      · rename_i returns
        exact absurd returns other
      · simp
      · simp
      · simp
  | cons t before ih =>
      obtain ⟨first, later⟩ := List.forall_mem_cons.mp succeed
      have returns : t.init = .returned true := by simpa [Subsystem.succeeds] using first
      have rest := @ih { l with initialized := l.initialized ++ [t], calls := l.calls ++ [.init t] }
        locked later
      rw [List.cons_append, initLoop]
      simp only [returns]
      rw [rest]
      simp

theorem initialize_registered (subsystems : List Subsystem) :
    initialize_ sort { subsystems := subsystems } = unlocked (initLoop sort subsystems
      { locked := true, state := .starting, subsystems := subsystems }) := by
  simp [initialize_, guarded]

/-- Where something fails, the start-up never returns. -/
theorem initialize_blocks (registers : Registered sort registered l)
    (fails : ∃ s ∈ registered, s.succeeds = false) : ∃ m, initialize_ sort l = .blocked m := by
  have prepared := registered_prepared registers
  obtain ⟨subsystems, rfl⟩ : ∃ subsystems, l = { subsystems := subsystems } := ⟨_, prepared.whole⟩
  obtain ⟨first, found⟩ : ∃ s, subsystems.find? (fun s => !s.succeeds) = some s := by
    obtain ⟨s, member, fails⟩ := fails
    apply Option.isSome_iff_exists.mp
    rw [List.find?_isSome]
    exact ⟨s, prepared.perm.mem_iff.mpr member, by simp [fails]⟩
  obtain ⟨failed, before, after, split, earlier⟩ := List.find?_eq_some_iff_append.mp found
  have loop := @initLoop_fails sort { locked := true, state := .starting, subsystems := subsystems }
    before after first rfl (fun s member => by simpa using earlier s member) (by simpa using failed)
  rw [← split] at loop
  rw [initialize_registered, loop]
  exact ⟨_, rfl⟩

theorem initialize_succeeds (registers : Registered sort registered l)
    (succeed : ∀ s ∈ registered, s.succeeds = true) :
    ∃ m, initialize_ sort l = .returned true m ∧ m.calls = l.subsystems.map .init := by
  have prepared := registered_prepared registers
  obtain ⟨subsystems, rfl⟩ : ∃ subsystems, l = { subsystems := subsystems } := ⟨_, prepared.whole⟩
  have loop := @initLoop_succeeds sort
    { locked := true, state := .starting, subsystems := subsystems } subsystems fun s member => succeed s (prepared.perm.mem_iff.mp member)
  rw [initialize_registered, loop]
  exact ⟨_, rfl, List.nil_append _⟩

@[simp] theorem inits_map (started : List Subsystem) : inits (started.map .init) = started := by
  induction started with
  | nil => rfl
  | cons s started ih => simp [inits]

/-- However the subsystems were registered, the start-up returns and keeps its contract
    if and only if every `init` returns true. -/
theorem starts_up_iff (registers : Registered sort registered l) :
    (∃ value after, initialize_ sort l = .returned value after ∧ StartsUp registered value after) ↔
      ∀ s ∈ registered, s.succeeds = true := by
  constructor
  · rintro ⟨value, after, returns, _⟩ s member
    by_contra fails
    obtain ⟨m, blocks⟩ := initialize_blocks registers ⟨s, member, by simpa using fails⟩
    rw [returns] at blocks
    cases blocks
  · intro succeed
    have prepared := registered_prepared registers
    obtain ⟨after, returns, calls⟩ := initialize_succeeds registers succeed
    have started : inits after.calls = l.subsystems := by rw [calls, inits_map]
    have all : ∀ s ∈ inits after.calls, s.succeeds = true := by
      intro s member
      rw [started] at member
      exact succeed s (prepared.perm.mem_iff.mp member)
    refine ⟨true, after, returns, ?_, ?_, ?_, ?_⟩
    · rw [started]
      exact prepared.byPhase
    · exact fun s member => all s (List.dropLast_subset _ member)
    · intro _
      rw [started]
      exact prepared.perm
    · rintro ⟨s, member, fails⟩
      rw [all s member] at fails
      cases fails

/-! ## Two subsystems -/

/-- A stable sort. -/
def mergeSort : StdSort Subsystem where
  sortBy key l := l.mergeSort fun s t => decide (key s ≤ key t)
  perm _ l := List.mergeSort_perm l _
  sorted key l := by
    have sorted : (l.mergeSort fun s t => decide (key s ≤ key t)).Pairwise
        fun s t => decide (key s ≤ key t) := by
      apply List.pairwise_mergeSort
      · intro a b c
        simp only [decide_eq_true_eq]
        omega
      · intro a b
        simp only [Bool.or_eq_true, decide_eq_true_eq]
        omega
    exact sorted.imp of_decide_eq_true

def storage (init : InitResult) : Subsystem where
  name := ascii "storage"
  phase := .storage
  init := init

def config : Subsystem where
  name := ascii "config"
  phase := .config
  init := .returned true

/-- Two subsystems that start are started. -/
theorem starts_up_iff_both : ∃ l value after,
    Registered mergeSort [storage (.returned true), config] l ∧
    initialize_ mergeSort l = .returned value after ∧
    StartsUp [storage (.returned true), config] value after := by
  obtain ⟨l, registers⟩ := registers mergeSort [storage (.returned true), config]
  obtain ⟨value, after, starts⟩ := (starts_up_iff registers).mpr (by decide)
  exact ⟨l, value, after, registers, starts⟩

/-- When the storage does not start, the start-up never returns. -/
theorem failed_start_blocks : ∃ l m,
    Registered mergeSort [storage (.returned false), config] l ∧
    initialize_ mergeSort l = .blocked m ∧
    ¬ ∃ value after, initialize_ mergeSort l = .returned value after ∧
      StartsUp [storage (.returned false), config] value after := by
  obtain ⟨l, registers⟩ := registers mergeSort [storage (.returned false), config]
  obtain ⟨m, blocks⟩ := initialize_blocks registers ⟨storage (.returned false), .head _, rfl⟩
  refine ⟨l, m, registers, blocks, ?_⟩
  rintro ⟨value, after, returns, _⟩
  rw [returns] at blocks
  cases blocks

end EmailServer.Core
