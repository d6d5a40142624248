import Mathlib.Logic.Relation

/-! # Programs over atomic operations

A program is a tree of atomic operations on a shared store, each continued by
what the operation answered. The same tree is read three ways: run to its end
alone, cut off after any operation, or interleaved with other programs.

Operations are interpreted by a relation, so an answer can be a failure and
one operation can have several outcomes.
-/

namespace EmailServer

/-- A program over operations `Op`, where `op` is answered in `Res op`. -/
inductive Prog (Op : Type) (Res : Op → Type) (α : Type) where
  | pure (value : α)
  | step (op : Op) (next : Res op → Prog Op Res α)

/-- What an operation may answer, and the store it leaves. -/
abbrev Sem (Op : Type) (Res : Op → Type) (σ : Type) := (op : Op) → σ → Res op → σ → Prop

namespace Prog

variable {Op : Type} {Res : Op → Type} {σ α β γ : Type}

def bind : Prog Op Res α → (α → Prog Op Res β) → Prog Op Res β
  | .pure value, next => next value
  | .step op rest, next => .step op fun r => (rest r).bind next

def map (f : α → β) (p : Prog Op Res α) : Prog Op Res β :=
  p.bind fun value => .pure (f value)

/-- The same program over a larger set of operations. -/
def embed {Op' : Type} {Res' : Op' → Type} (inject : Op → Op')
    (answer : ∀ op, Res' (inject op) → Res op) : Prog Op Res α → Prog Op' Res' α
  | .pure value => .pure value
  | .step op next => .step (inject op) fun r => (next (answer op r)).embed inject answer

/-- The program with each operation carried out by a program. -/
def expand {Op' : Type} {Res' : Op' → Type} (carry : ∀ op, Prog Op' Res' (Res op)) :
    Prog Op Res α → Prog Op' Res' α
  | .pure value => .pure value
  | .step op next => (carry op).bind fun r => (next r).expand carry

@[simp] theorem pure_bind (value : α) (next : α → Prog Op Res β) :
    (Prog.pure value).bind next = next value := rfl

@[simp] theorem step_bind (op : Op) (rest : Res op → Prog Op Res α) (next : α → Prog Op Res β) :
    (Prog.step op rest).bind next = .step op fun r => (rest r).bind next := rfl

/-- Run alone from `s`, the program returns `a` and leaves `t`. -/
def Runs (sem : Sem Op Res σ) : Prog Op Res α → σ → α → σ → Prop
  | .pure value, s, a, t => a = value ∧ t = s
  | .step op next, s, a, t => ∃ r mid, sem op s r mid ∧ Runs sem (next r) mid a t

@[simp] theorem runs_pure {sem : Sem Op Res σ} {value a : α} {s t : σ} :
    (Prog.pure value : Prog Op Res α).Runs sem s a t ↔ a = value ∧ t = s := Iff.rfl

@[simp] theorem runs_step {sem : Sem Op Res σ} {op : Op} {next : Res op → Prog Op Res α}
    {a : α} {s t : σ} :
    (Prog.step op next).Runs sem s a t ↔ ∃ r mid, sem op s r mid ∧ (next r).Runs sem mid a t :=
  Iff.rfl

theorem runs_bind {sem : Sem Op Res σ} {p : Prog Op Res α} {next : α → Prog Op Res β}
    {b : β} {s t : σ} :
    (p.bind next).Runs sem s b t ↔ ∃ a mid, p.Runs sem s a mid ∧ (next a).Runs sem mid b t := by
  induction p generalizing s with
  | pure value => simp only [pure_bind, runs_pure, and_assoc, exists_and_left, exists_eq_left]
  | step op rest ih =>
      simp only [step_bind, runs_step, ih]
      constructor
      · rintro ⟨r, mid, effect, a, last, first, second⟩
        exact ⟨a, last, ⟨r, mid, effect, first⟩, second⟩
      · rintro ⟨a, last, ⟨r, mid, effect, first⟩, second⟩
        exact ⟨r, mid, effect, a, last, first, second⟩

theorem runs_map {sem : Sem Op Res σ} {p : Prog Op Res α} {f : α → β} {b : β} {s t : σ} :
    (p.map f).Runs sem s b t ↔ ∃ a, p.Runs sem s a t ∧ b = f a := by
  simp only [map, runs_bind, runs_pure]
  constructor
  · rintro ⟨a, mid, first, same, rfl⟩
    exact ⟨a, first, same⟩
  · rintro ⟨a, first, same⟩
    exact ⟨a, t, first, same, rfl⟩

/-- Every way of running `p` alone from `s` ends in `post`. -/
def Ensures (sem : Sem Op Res σ) (p : Prog Op Res α) (s : σ) (post : α → σ → Prop) : Prop :=
  ∀ a t, p.Runs sem s a t → post a t

namespace Ensures

variable {sem : Sem Op Res σ} {s : σ}

theorem pure {value : α} {post : α → σ → Prop} (done : post value s) :
    (Prog.pure value : Prog Op Res α).Ensures sem s post := by
  rintro a t ⟨rfl, rfl⟩
  exact done

theorem step {op : Op} {next : Res op → Prog Op Res α} {post : α → σ → Prop}
    (each : ∀ r mid, sem op s r mid → (next r).Ensures sem mid post) :
    (Prog.step op next).Ensures sem s post := by
  rintro a t ⟨r, mid, effect, rest⟩
  exact each r mid effect a t rest

theorem bind {p : Prog Op Res α} {next : α → Prog Op Res β} {inner : α → σ → Prop}
    {post : β → σ → Prop} (first : p.Ensures sem s inner)
    (rest : ∀ a mid, inner a mid → (next a).Ensures sem mid post) :
    (p.bind next).Ensures sem s post := by
  intro b t run
  obtain ⟨a, mid, run, after⟩ := runs_bind.mp run
  exact rest a mid (first a mid run) b t after

end Ensures

/-- While `p` runs alone from `s`, it comes to execute `op` in the store `t`. -/
inductive Executes (sem : Sem Op Res σ) : Prog Op Res α → σ → Op → σ → Prop
  | here {op next s} : Executes sem (.step op next) s op s
  | later {op next s r mid op' t} : sem op s r mid → Executes sem (next r) mid op' t →
      Executes sem (.step op next) s op' t

/-- The program returns `a` under some answers of the operations, whatever the
    store does in between. -/
def Returns (a : α) : Prog Op Res α → Prop
  | .pure value => a = value
  | .step _ next => ∃ r, Returns a (next r)

@[simp] theorem returns_pure {value a : α} :
    (Prog.pure value : Prog Op Res α).Returns a ↔ a = value := Iff.rfl

@[simp] theorem returns_step {op : Op} {next : Res op → Prog Op Res α} {a : α} :
    (Prog.step op next).Returns a ↔ ∃ r, (next r).Returns a := Iff.rfl

theorem Runs.mono {sem sem' : Sem Op Res σ} {p : Prog Op Res α} {a : α} {s t : σ}
    (more : ∀ op s r t, sem op s r t → sem' op s r t) (run : p.Runs sem s a t) :
    p.Runs sem' s a t := by
  induction p generalizing s with
  | pure value => exact run
  | step op next ih =>
      obtain ⟨r, mid, effect, rest⟩ := run
      exact ⟨r, mid, more op s r mid effect, ih r rest⟩

theorem Runs.returns {sem : Sem Op Res σ} {p : Prog Op Res α} {a : α} {s t : σ}
    (run : p.Runs sem s a t) : p.Returns a := by
  induction p generalizing s with
  | pure value => exact run.1
  | step op next ih =>
      obtain ⟨r, mid, _, rest⟩ := run
      exact ⟨r, ih r rest⟩

theorem returns_bind {p : Prog Op Res α} {next : α → Prog Op Res β} {b : β} :
    (p.bind next).Returns b ↔ ∃ a, p.Returns a ∧ (next a).Returns b := by
  induction p with
  | pure value => simp only [pure_bind, returns_pure, exists_eq_left]
  | step op rest ih =>
      simp only [step_bind, returns_step, ih]
      constructor
      · intro ⟨r, a, first, second⟩
        exact ⟨a, ⟨r, first⟩, second⟩
      · intro ⟨a, ⟨r, first⟩, second⟩
        exact ⟨r, a, first, second⟩

theorem returns_map {p : Prog Op Res α} {f : α → β} {b : β} :
    (p.map f).Returns b ↔ ∃ a, p.Returns a ∧ b = f a := by
  simp only [map, returns_bind, returns_pure]

/-- `t` is a store that `p`, started from `s`, can leave behind when it is cut
    off between two operations or has come to its end. -/
inductive Visits (sem : Sem Op Res σ) : Prog Op Res α → σ → σ → Prop
  | stop {p s} : Visits sem p s s
  | later {op next s r mid t} : sem op s r mid → Visits sem (next r) mid t →
      Visits sem (.step op next) s t

theorem executes_pure {sem : Sem Op Res σ} {value : α} {s t : σ} {op : Op} :
    ¬ (Prog.pure value : Prog Op Res α).Executes sem s op t := by
  intro h
  cases h

theorem executes_step {sem : Sem Op Res σ} {op op' : Op} {next : Res op → Prog Op Res α}
    {s t : σ} :
    (Prog.step op next).Executes sem s op' t ↔
      (op' = op ∧ t = s) ∨ ∃ r mid, sem op s r mid ∧ (next r).Executes sem mid op' t := by
  constructor
  · intro h
    cases h with
    | here => exact .inl ⟨rfl, rfl⟩
    | later effect rest => exact .inr ⟨_, _, effect, rest⟩
  · rintro (⟨rfl, rfl⟩ | ⟨r, mid, effect, rest⟩)
    · exact .here
    · exact .later effect rest

theorem executes_bind {sem : Sem Op Res σ} {p : Prog Op Res α} {next : α → Prog Op Res β}
    {s t : σ} {op : Op} :
    (p.bind next).Executes sem s op t ↔
      p.Executes sem s op t ∨ ∃ a mid, p.Runs sem s a mid ∧ (next a).Executes sem mid op t := by
  induction p generalizing s with
  | pure value =>
      simp only [pure_bind, runs_pure, executes_pure, false_or, and_assoc, exists_and_left,
        exists_eq_left]
  | step first rest ih =>
      simp only [step_bind, executes_step, runs_step, ih]
      constructor
      · rintro (here | ⟨r, mid, effect, inside | ⟨a, last, run, after⟩⟩)
        · exact .inl (.inl here)
        · exact .inl (.inr ⟨r, mid, effect, inside⟩)
        · exact .inr ⟨a, last, ⟨r, mid, effect, run⟩, after⟩
      · rintro ((here | ⟨r, mid, effect, inside⟩) | ⟨a, last, ⟨r, mid, effect, run⟩, after⟩)
        · exact .inl here
        · exact .inr ⟨r, mid, effect, .inl inside⟩
        · exact .inr ⟨r, mid, effect, .inr ⟨a, last, run, after⟩⟩

/-- Running `p` alone from `s`, every store that can be left behind satisfies
    `inv`, and the end satisfies `post`. -/
def Guards (sem : Sem Op Res σ) (inv : σ → Prop) (post : α → σ → Prop) : Prog Op Res α → σ → Prop
  | .pure value, s => inv s ∧ post value s
  | .step op next, s => inv s ∧ ∀ r t, sem op s r t → Guards sem inv post (next r) t

namespace Guards

variable {sem : Sem Op Res σ} {inv : σ → Prop} {post : α → σ → Prop} {p : Prog Op Res α} {s t : σ}

theorem start (h : p.Guards sem inv post s) : inv s := by
  cases p with
  | pure value => exact h.1
  | step op next => exact h.1

theorem runs (h : p.Guards sem inv post s) {a : α} (run : p.Runs sem s a t) : post a t := by
  induction p generalizing s with
  | pure value =>
      obtain ⟨rfl, rfl⟩ := run
      exact h.2
  | step op next ih =>
      obtain ⟨r, mid, effect, rest⟩ := run
      exact ih r (h.2 r mid effect) rest

theorem visits (h : p.Guards sem inv post s) (visit : p.Visits sem s t) : inv t := by
  induction visit with
  | stop => exact h.start
  | later effect _ ih => exact ih (h.2 _ _ effect)

theorem bind {inner : α → σ → Prop} {next : α → Prog Op Res β} {post : β → σ → Prop}
    (first : p.Guards sem inv inner s)
    (rest : ∀ a t, inner a t → (next a).Guards sem inv post t) :
    (p.bind next).Guards sem inv post s := by
  induction p generalizing s with
  | pure value => exact rest value s first.2
  | step op after ih => exact ⟨first.1, fun r mid effect => ih r (first.2 r mid effect)⟩

theorem map {f : α → β} {inner : α → σ → Prop} {post : β → σ → Prop}
    (first : p.Guards sem inv inner s) (weaken : ∀ a t, inner a t → post (f a) t) :
    (p.map f).Guards sem inv post s := by
  induction p generalizing s with
  | pure value => exact ⟨first.1, weaken value s first.2⟩
  | step op after ih => exact ⟨first.1, fun r mid effect => ih r (first.2 r mid effect)⟩

theorem imp {inv' : σ → Prop} {post' : α → σ → Prop} (h : p.Guards sem inv post s)
    (weaken : ∀ t, inv t → inv' t) (ends : ∀ a t, post a t → post' a t) :
    p.Guards sem inv' post' s := by
  induction p generalizing s with
  | pure value => exact ⟨weaken s h.1, ends value s h.2⟩
  | step op after ih => exact ⟨weaken s h.1, fun r mid effect => ih r (h.2 r mid effect)⟩

theorem mono {inv' : σ → Prop} (h : p.Guards sem inv post s) (weaken : ∀ t, inv t → inv' t) :
    p.Guards sem inv' post s :=
  h.imp weaken fun _ _ ended => ended

end Guards

/-- Every operation the program can ever ask for is among `allowed`. -/
def Uses (allowed : Op → Prop) : Prog Op Res α → Prop
  | .pure _ => True
  | .step op next => allowed op ∧ ∀ r, (next r).Uses allowed

theorem Uses.bind {allowed : Op → Prop} {p : Prog Op Res α} {next : α → Prog Op Res β}
    (first : p.Uses allowed) (rest : ∀ a, (next a).Uses allowed) :
    (p.bind next).Uses allowed := by
  induction p with
  | pure value => exact rest value
  | step op after ih => exact ⟨first.1, fun r => ih r (first.2 r)⟩

theorem Uses.weaken {allowed allowed' : Op → Prop} {p : Prog Op Res α} (uses : p.Uses allowed)
    (weaker : ∀ op, allowed op → allowed' op) : p.Uses allowed' := by
  induction p with
  | pure value => trivial
  | step op after ih => exact ⟨weaker op uses.1, fun r => ih r (uses.2 r)⟩

theorem Uses.executes {sem : Sem Op Res σ} {allowed : Op → Prop} {p : Prog Op Res α}
    (uses : p.Uses allowed) {s t : σ} {op : Op} (execution : p.Executes sem s op t) :
    allowed op := by
  induction execution with
  | here => exact uses.1
  | later _ _ ih => exact ih (uses.2 _)

/-- A program is guarded by another meaning of the operations too, if that adds nothing to those
    that it uses. -/
theorem Uses.guards {sem sem' : Sem Op Res σ} {inv : σ → Prop} {post : α → σ → Prop}
    {p : Prog Op Res α} {s : σ} (uses : p.Uses fun op => ∀ s r t, sem' op s r t → sem op s r t)
    (h : p.Guards sem inv post s) : p.Guards sem' inv post s := by
  induction p generalizing s with
  | pure value => exact h
  | step op next ih =>
      exact ⟨h.1, fun r t effect => ih r (uses.2 r) (h.2 r t (uses.1 s r t effect))⟩

/-- An invariant kept by every operation a program uses is kept by the program. -/
theorem Uses.invariant {sem : Sem Op Res σ} {allowed : Op → Prop} {p : Prog Op Res α}
    (uses : p.Uses allowed) (keeps : σ → Prop)
    (each : ∀ op s r t, allowed op → keeps s → sem op s r t → keeps t)
    {s t : σ} {a : α} (start : keeps s) (run : p.Runs sem s a t) : keeps t := by
  induction p generalizing s with
  | pure value =>
      obtain ⟨-, rfl⟩ := run
      exact start
  | step op next ih =>
      obtain ⟨r, mid, effect, rest⟩ := run
      exact ih r (uses.2 r) (each op s r mid uses.1 start effect) rest

section Possible

variable {possible : (op : Op) → Res op → Prop} {wanted : Op → Prop} {ends : α → Prop}

/-- On every path of `possible` answers the program comes to an operation that is `wanted`. -/
def Performs (possible : (op : Op) → Res op → Prop) (wanted : Op → Prop) : Prog Op Res α → Prop
  | .pure _ => False
  | .step op next => wanted op ∨ ∀ r, possible op r → (next r).Performs possible wanted

/-- Every such path ends in a value that satisfies `ends`. -/
def Yields (possible : (op : Op) → Res op → Prop) (ends : α → Prop) : Prog Op Res α → Prop
  | .pure value => ends value
  | .step op next => ∀ r, possible op r → (next r).Yields possible ends

theorem yields_any (p : Prog Op Res α) : p.Yields possible fun _ => True := by
  induction p with
  | pure value => trivial
  | step op next ih => exact fun r _ => ih r

theorem Yields.bind {p : Prog Op Res α} {next : α → Prog Op Res β} {ends' : β → Prop}
    (first : p.Yields possible ends) (rest : ∀ a, ends a → (next a).Yields possible ends') :
    (p.bind next).Yields possible ends' := by
  induction p with
  | pure value => exact rest value first
  | step op after ih => exact fun r answer => ih r (first r answer)

theorem Performs.bind {p : Prog Op Res α} {next : α → Prog Op Res β}
    (first : p.Yields possible ends) (rest : ∀ a, ends a → (next a).Performs possible wanted) :
    (p.bind next).Performs possible wanted := by
  induction p with
  | pure value => exact rest value first
  | step op after ih => exact .inr fun r answer => ih r (first r answer)

end Possible

end Prog

theorem forall_moved {α : Type} {P : α → Prop} {before after : List α} {x y : α}
    (all : ∀ z ∈ before ++ x :: after, P z) (moved : P y) : ∀ z ∈ before ++ y :: after, P z := by
  rw [List.forall_mem_append, List.forall_mem_cons] at all ⊢
  exact ⟨all.1, moved, all.2.2⟩

theorem countP_moved {α : Type} (f : α → Bool) (before after : List α) (x y : α) :
    (before ++ y :: after).countP f + [x].countP f = (before ++ x :: after).countP f + [y].countP f := by
  simp only [List.countP_append, List.countP_cons, List.countP_nil]
  omega

end EmailServer
