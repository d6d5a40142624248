import Mathlib.Data.List.Forall2
import EmailServer.Library.Program
import EmailServer.Library.Trace

/-! # Calls that can be cut off

Programs on a store that outlives them, against what their calls mean for an abstract state.
A call that returns does what it means, and one that is cut off does it as a whole or not at
all; a crash is not to be seen in the abstract state. So every history of the store is one of
the abstract state.
-/

namespace EmailServer

/-- What happens to a system with the calls `C`, which are answered in `A`. -/
inductive CallEvent (C A : Type) where
  | returned (call : C) (answer : A)
  /-- The process is killed somewhere in the call. -/
  | cutOff (call : C)
  | idle

/-- Calls as programs, and what a crash and the time between calls do to the store. -/
structure CallSystem (C A Op : Type) (Res : Op → Type) (σ : Type) where
  program : C → Prog Op Res A
  sem : Sem Op Res σ
  crash : σ → σ → Prop
  idle : σ → σ → Prop

/-- What a call may answer, and the abstract state it leaves. -/
abbrev Meaning (C A β : Type) := C → β → A → β → Prop

namespace Meaning

variable {C A σ β : Type} (M : Meaning C A β) (R : σ → β → Prop)

def Step (b : β) : CallEvent C A → β → Prop
  | .returned call answer, b' => M call b answer b'
  | .cutOff call, b' => b' = b ∨ ∃ answer, M call b answer b'
  | .idle, b' => b' = b

/-- The store shows a state that the call may leave when it is cut off. -/
def Within (call : C) (b : β) (t : σ) : Prop :=
  ∃ b', M.Step b (.cutOff call) b' ∧ R t b'

/-- The store shows a state that the call may leave with this answer. -/
def Ends (call : C) (b : β) (answer : A) (t : σ) : Prop := ∃ b', M call b answer b' ∧ R t b'

variable {M R} {call : C} {b b' : β} {answer : A} {t : σ}

theorem Within.before (shows : R t b) : M.Within R call b t := ⟨b, .inl rfl, shows⟩

theorem Within.after (means : M call b answer b') (shows : R t b') : M.Within R call b t :=
  ⟨b', .inr ⟨answer, means⟩, shows⟩

end Meaning

namespace CallSystem

variable {C A Op σ β : Type} {Res : Op → Type} (S : CallSystem C A Op Res σ)

def Step (s : σ) : CallEvent C A → σ → Prop
  | .returned call answer, t => (S.program call).Runs S.sem s answer t
  | .cutOff call, t => ∃ u, (S.program call).Visits S.sem s u ∧ S.crash u t
  | .idle, t => S.idle s t

/-- Every call does to the store what it means for the state that the store shows. -/
structure Refines (M : Meaning C A β) (R : σ → β → Prop) : Prop where
  call : ∀ call s b, R s b →
    (S.program call).Guards S.sem (M.Within R call b) (M.Ends R call b) s
  crash : ∀ s t b, R s b → S.crash s t → R t b
  idle : ∀ s t b, R s b → S.idle s t → R t b

variable {S} {M : Meaning C A β} {R : σ → β → Prop}

theorem Refines.step (refines : S.Refines M R) {s t : σ} {b : β} {event : CallEvent C A}
    (shows : R s b) (step : S.Step s event t) : ∃ b', M.Step b event b' ∧ R t b' := by
  cases event with
  | returned call answer => exact (refines.call call s b shows).runs step
  | cutOff call =>
      obtain ⟨u, visit, crash⟩ := step
      obtain ⟨b', within, shown⟩ := (refines.call call s b shows).visits visit
      exact ⟨b', within, refines.crash u t b' shown crash⟩
  | idle => exact ⟨b, rfl, refines.idle s t b shows step⟩

/-- Two histories of the same events, in which the store always shows the abstract state. -/
def Alike (R : σ → β → Prop) : List (Taken (CallEvent C A) σ) → List (Taken (CallEvent C A) β) →
    Prop :=
  List.Forall₂ fun x y => x.label = y.label ∧ R x.before y.before ∧ R x.after y.after

theorem Alike.labels {past : List (Taken (CallEvent C A) σ)} {past' : List (Taken (CallEvent C A) β)}
    (alike : Alike R past past') : past.map (·.label) = past'.map (·.label) := by
  induction alike with
  | nil => rfl
  | cons same _ ih => rw [List.map_cons, List.map_cons, same.1, ih]

/-- Every history of the store is one of the abstract state. -/
theorem Refines.history (refines : S.Refines M R) {s t : σ} {b : β}
    {past : List (Taken (CallEvent C A) σ)} (shows : R s b) (trace : Trace S.Step s past t) :
    ∃ past' b', Trace M.Step b past' b' ∧ Alike R past past' ∧ R t b' := by
  induction trace with
  | nil => exact ⟨[], b, .nil, .nil, shows⟩
  | @snoc past u event t _ step ih =>
      obtain ⟨past', mid, earlier, alike, shown⟩ := ih
      obtain ⟨b', means, shown'⟩ := refines.step shown step
      exact ⟨past' ++ [⟨event, mid, b'⟩], b', .snoc earlier means,
        List.rel_append alike (.cons ⟨rfl, shown, shown'⟩ .nil), shown'⟩

end CallSystem

end EmailServer
