import Mathlib.Logic.Function.Basic
import EmailServer.Library.Program

/-! # Interleaved programs and rely-guarantee reasoning

Any number of threads run programs over one store, one atomic operation at a
time and in any order. A thread may be killed between two operations, and the
surroundings may change the store on their own.

A `Discipline` states what each thread may rely on. `Safe` says that a program
keeps the shared invariant and everybody else's reliance, whatever the others
do in between; `Pool.consistent` lifts it to every interleaving.
-/

namespace EmailServer

/-- What threads `ι` working on a store `σ` agree on. `valid` is the shared
    invariant, `rely i` what thread `i` may assume of the steps of the others,
    and `grows` what every step of anybody respects. -/
structure Discipline (ι : Type) (Op : Type) (Res : Op → Type) (σ : Type) where
  sem : ι → Sem Op Res σ
  valid : σ → Prop
  rely : ι → σ → σ → Prop
  grows : σ → σ → Prop
  rely_refl : ∀ i s, rely i s s
  rely_trans : ∀ i {s t u}, rely i s t → rely i t u → rely i s u

namespace Discipline

variable {ι Op σ α β : Type} {Res : Op → Type} (D : Discipline ι Op Res σ)

/-- One step of thread `i` is acceptable to everybody. -/
def Accepts (i : ι) (s t : σ) : Prop :=
  D.valid t ∧ D.grows s t ∧ ∀ j, j ≠ i → D.rely j s t

/-- Thread `i` may be left in front of `p` in the store `s`: after any steps of
    the others its next operation is acceptable, and it ends in `post`. -/
def Safe (i : ι) (post : α → σ → Prop) : Prog Op Res α → σ → Prop
  | .pure value, s => ∀ t, D.valid t → D.rely i s t → post value t
  | .step op next, s => ∀ t, D.valid t → D.rely i s t → ∀ r u, D.sem i op t r u →
      D.Accepts i t u ∧ Safe i post (next r) u

namespace Safe

variable {D} {i : ι} {post : α → σ → Prop} {p : Prog Op Res α} {s t : σ}

theorem later (safe : D.Safe i post p s) (others : D.rely i s t) : D.Safe i post p t := by
  cases p with
  | pure value => exact fun u kept after => safe u kept (D.rely_trans i others after)
  | step op next => exact fun u kept after => safe u kept (D.rely_trans i others after)

theorem bind {next : α → Prog Op Res β} {inner : α → σ → Prop} {post : β → σ → Prop}
    (first : D.Safe i inner p s)
    (rest : ∀ a t, D.valid t → inner a t → D.Safe i post (next a) t) (kept : D.valid s) :
    D.Safe i post (p.bind next) s := by
  induction p generalizing s with
  | pure value => exact rest value s kept (first s kept (D.rely_refl i s))
  | step op after ih =>
      intro t keptT others r u effect
      obtain ⟨accepted, safe⟩ := first t keptT others r u effect
      exact ⟨accepted, ih r safe accepted.1⟩

theorem map {f : α → β} {inner : α → σ → Prop} {post : β → σ → Prop} (safe : D.Safe i inner p s)
    (weaken : ∀ a t, inner a t → post (f a) t) : D.Safe i post (p.map f) s := by
  induction p generalizing s with
  | pure value => exact fun t kept others => weaken value t (safe t kept others)
  | step op next ih =>
      intro t kept others r u effect
      obtain ⟨accepted, rest⟩ := safe t kept others r u effect
      exact ⟨accepted, ih r rest⟩

theorem weaken {inner : α → σ → Prop} (safe : D.Safe i inner p s)
    (weaker : ∀ a t, inner a t → post a t) : D.Safe i post p s := by
  induction p generalizing s with
  | pure value => exact fun t kept others => weaker value t (safe t kept others)
  | step op next ih =>
      intro t kept others r u effect
      obtain ⟨accepted, rest⟩ := safe t kept others r u effect
      exact ⟨accepted, ih r rest⟩

/-- A program whose every operation is acceptable from any valid store needs
    no reasoning about what it has seen. -/
theorem of_uses {allowed : Op → Prop} (uses : p.Uses allowed)
    (each : ∀ op s r t, allowed op → D.valid s → D.sem i op s r t → D.Accepts i s t)
    (holds : ∀ a t, D.valid t → post a t) : D.Safe i post p s := by
  induction p generalizing s with
  | pure value => exact fun t kept _ => holds value t kept
  | step op next ih =>
      intro t kept _ r u effect
      exact ⟨each op t r u uses.1 kept effect, ih r (uses.2 r)⟩

/-- A safe program run without interference ends in its postcondition. -/
theorem runs (safe : D.Safe i post p s) (kept : D.valid s) {a : α}
    (run : p.Runs (D.sem i) s a t) : D.valid t ∧ post a t := by
  induction p generalizing s with
  | pure value =>
      obtain ⟨rfl, rfl⟩ := run
      exact ⟨kept, safe t kept (D.rely_refl i t)⟩
  | step op next ih =>
      obtain ⟨r, mid, effect, rest⟩ := run
      obtain ⟨accepted, after⟩ := safe s kept (D.rely_refl i s) r mid effect
      exact ih r after accepted.1 rest

/-- What two disciplines of one semantics ensure, when the second relies on less. -/
theorem both {E : Discipline ι Op Res σ} {post' : α → σ → Prop} (safe : D.Safe i post p s)
    (other : E.Safe i post' p s) (same : E.sem = D.sem) (weaker : ∀ s, D.valid s → E.valid s)
    (calmer : ∀ s t, D.rely i s t → E.rely i s t) :
    D.Safe i (fun a t => post a t ∧ post' a t) p s := by
  induction p generalizing s with
  | pure value =>
      exact fun t kept others => ⟨safe t kept others, other t (weaker t kept) (calmer s t others)⟩
  | step op next ih =>
      intro t kept others r u effect
      obtain ⟨accepted, rest⟩ := safe t kept others r u effect
      have effect' : E.sem i op t r u := by rwa [same]
      exact ⟨accepted, ih r rest (other t (weaker t kept) (calmer s t others) r u effect').2⟩

end Safe

/-- No assumptions: a program is safe when its every end is right, whatever
    happens to the store between its operations. -/
def unguarded (sem : ι → Sem Op Res σ) : Discipline ι Op Res σ where
  sem := sem
  valid _ := True
  rely _ _ _ := True
  grows _ _ := True
  rely_refl _ _ := trivial
  rely_trans _ _ _ _ _ _ := trivial

theorem unguarded_accepts {sem : ι → Sem Op Res σ} {i : ι} {s t : σ} :
    (unguarded sem).Accepts i s t := ⟨trivial, trivial, fun _ _ => trivial⟩

theorem Safe.unguarded {sem : ι → Sem Op Res σ} {i : ι} {post : α → σ → Prop}
    {p : Prog Op Res α} {s : σ} (holds : ∀ a t, post a t) : (unguarded sem).Safe i post p s := by
  induction p generalizing s with
  | pure value => exact fun t _ _ => holds value t
  | step op next ih => exact fun _ _ _ r _ _ => ⟨unguarded_accepts, ih r⟩

/-- What a program can return at all it returns in any run. -/
theorem Safe.of_returns {sem : ι → Sem Op Res σ} {i : ι} {P : α → Prop} {p : Prog Op Res α} {s : σ}
    (each : ∀ a, p.Returns a → P a) :
    (Discipline.unguarded sem).Safe i (fun a _ => P a) p s := by
  induction p generalizing s with
  | pure value => exact fun _ _ _ => each value rfl
  | step op next ih =>
      exact fun _ _ _ r _ _ => ⟨unguarded_accepts, ih r fun a returns => each a ⟨r, returns⟩⟩

/-- Every thread may rely on what every step respects. -/
def growing (refl : ∀ s, D.grows s s) (trans : ∀ s t u, D.grows s t → D.grows t u → D.grows s u) :
    Discipline ι Op Res σ where
  sem := D.sem
  valid := D.valid
  rely i s t := D.rely i s t ∧ D.grows s t
  grows := D.grows
  rely_refl i s := ⟨D.rely_refl i s, refl s⟩
  rely_trans i s t u first second :=
    ⟨D.rely_trans i first.1 second.1, trans s t u first.2 second.2⟩

section Growing

variable {D} {refl : ∀ s, D.grows s s} {trans : ∀ s t u, D.grows s t → D.grows t u → D.grows s u}
  {i : ι} {post : α → σ → Prop} {p : Prog Op Res α} {s t : σ}

theorem Accepts.growing (accepted : D.Accepts i s t) : (D.growing refl trans).Accepts i s t :=
  ⟨accepted.1, accepted.2.1, fun j other => ⟨accepted.2.2 j other, accepted.2.1⟩⟩

theorem Safe.growing (safe : D.Safe i post p s) : (D.growing refl trans).Safe i post p s := by
  induction p generalizing s with
  | pure value => exact fun t kept others => safe t kept others.1
  | step op next ih =>
      intro t kept others r u effect
      obtain ⟨accepted, rest⟩ := safe t kept others.1 r u effect
      exact ⟨accepted.growing, ih r rest⟩

theorem Safe.grown {before : σ} (safe : (D.growing refl trans).Safe i post p s)
    (earlier : D.grows before s) :
    (D.growing refl trans).Safe i (fun a t => post a t ∧ D.grows before t) p s := by
  induction p generalizing s with
  | pure value =>
      exact fun t kept others => ⟨safe t kept others, trans _ _ _ earlier others.2⟩
  | step op next ih =>
      intro t kept others r u effect
      obtain ⟨accepted, rest⟩ := safe t kept others r u effect
      have met : D.grows before u := trans _ _ _ (trans _ _ _ earlier others.2) accepted.2.1
      exact ⟨accepted, ih r rest met⟩

end Growing

end Discipline

/-- Threads `ι` in front of programs, the store they share, and the results of
    the calls that have returned. -/
structure Pool (ι Op : Type) (Res : Op → Type) (ρ σ : Type) where
  shared : σ
  running : ι → Option (Prog Op Res ρ)
  returned : List ρ

namespace Pool

variable {ι Op ρ σ : Type} {Res : Op → Type} [DecidableEq ι]

/-- Nothing runs and nothing has returned. -/
def start (s : σ) : Pool ι Op Res ρ σ := ⟨s, fun _ => none, []⟩

/-- No call is in progress. -/
def Quiescent (pool : Pool ι Op Res ρ σ) : Prop := ∀ i, pool.running i = none

/-- One step of the pool. Idle threads start the programs in `entry`; the
    surroundings change the store along `ambient`. -/
inductive Step (sem : ι → Sem Op Res σ) (entry : Prog Op Res ρ → Prop) (ambient : σ → σ → Prop) :
    Pool ι Op Res ρ σ → Pool ι Op Res ρ σ → Prop
  | call {pool : Pool ι Op Res ρ σ} {i p} : pool.running i = none → entry p →
      Step sem entry ambient pool
        { pool with running := Function.update pool.running i (some p) }
  | operate {pool : Pool ι Op Res ρ σ} {i op next r t} : pool.running i = some (.step op next) →
      sem i op pool.shared r t →
      Step sem entry ambient pool
        { pool with shared := t, running := Function.update pool.running i (some (next r)) }
  | finish {pool : Pool ι Op Res ρ σ} {i a} : pool.running i = some (.pure a) →
      Step sem entry ambient pool
        { pool with
          running := Function.update pool.running i none
          returned := a :: pool.returned }
  | die {pool : Pool ι Op Res ρ σ} (i : ι) :
      Step sem entry ambient pool { pool with running := Function.update pool.running i none }
  | around {pool : Pool ι Op Res ρ σ} {t} : ambient pool.shared t →
      Step sem entry ambient pool { pool with shared := t }

/-- A step of a call in progress. -/
inductive Works (sem : ι → Sem Op Res σ) : Pool ι Op Res ρ σ → Pool ι Op Res ρ σ → Prop
  | operate {pool : Pool ι Op Res ρ σ} {i op next r t} : pool.running i = some (.step op next) →
      sem i op pool.shared r t →
      Works sem pool
        { pool with shared := t, running := Function.update pool.running i (some (next r)) }
  | finish {pool : Pool ι Op Res ρ σ} {i a} : pool.running i = some (.pure a) →
      Works sem pool
        { pool with
          running := Function.update pool.running i none
          returned := a :: pool.returned }

/-- A step of a pool in which no thread is killed. -/
inductive Proceeds (sem : ι → Sem Op Res σ) (entry : Prog Op Res ρ → Prop)
    (ambient : σ → σ → Prop) : Pool ι Op Res ρ σ → Pool ι Op Res ρ σ → Prop
  | call {pool : Pool ι Op Res ρ σ} {i p} : pool.running i = none → entry p →
      Proceeds sem entry ambient pool
        { pool with running := Function.update pool.running i (some p) }
  | work {pool next : Pool ι Op Res ρ σ} : Works sem pool next → Proceeds sem entry ambient pool next
  | around {pool : Pool ι Op Res ρ σ} {t} : ambient pool.shared t →
      Proceeds sem entry ambient pool { pool with shared := t }

section Runs

variable {sem : ι → Sem Op Res σ} {entry : Prog Op Res ρ → Prop} {ambient : σ → σ → Prop}
  {i : ι} {p : Prog Op Res ρ} {a : ρ} {t : σ}

theorem Proceeds.step {pool next : Pool ι Op Res ρ σ}
    (move : Proceeds sem entry ambient pool next) :
    Step sem entry ambient pool next := by
  cases move with
  | call idle isEntry => exact .call idle isEntry
  | work work =>
      cases work with
      | operate running effect => exact .operate running effect
      | finish running => exact .finish running
  | around change => exact .around change

theorem proceeds_steps {pool next : Pool ι Op Res ρ σ}
    (moves : Relation.ReflTransGen (Proceeds sem entry ambient) pool next) :
    Relation.ReflTransGen (Step sem entry ambient) pool next :=
  moves.lift id fun _ _ move => move.step

/-- A program run alone is one of the interleavings. -/
theorem alone (pool : Pool ι Op Res ρ σ)
    (running : pool.running i = some p) (run : p.Runs (sem i) pool.shared a t) :
    Relation.ReflTransGen (Proceeds sem entry ambient) pool
      { shared := t
        running := Function.update pool.running i none
        returned := a :: pool.returned } := by
  induction p generalizing pool with
  | pure value =>
      obtain ⟨rfl, rfl⟩ := run
      exact .single (.work (.finish running))
  | step op next ih =>
      obtain ⟨r, mid, effect, rest⟩ := run
      have steps := ih r
        { pool with shared := mid, running := Function.update pool.running i (some (next r)) }
        (by simp) rest
      simp only [Function.update_idem] at steps
      exact .head (.work (.operate running effect)) steps

theorem call_proceeds (pool : Pool ι Op Res ρ σ) (idle : pool.running i = none) (isEntry : entry p)
    (run : p.Runs (sem i) pool.shared a t) :
    Relation.ReflTransGen (Proceeds sem entry ambient) pool
      { pool with shared := t, returned := a :: pool.returned } := by
  have steps : Relation.ReflTransGen (Proceeds sem entry ambient) _ _ :=
    alone { pool with running := Function.update pool.running i (some p) } (by simp) run
  simp only [Function.update_idem, ← idle, Function.update_eq_self] at steps
  exact .head (.call idle isEntry) steps

theorem call_alone (pool : Pool ι Op Res ρ σ) (idle : pool.running i = none) (isEntry : entry p)
    (run : p.Runs (sem i) pool.shared a t) :
    Relation.ReflTransGen (Step sem entry ambient) pool
      { pool with shared := t, returned := a :: pool.returned } :=
  proceeds_steps (call_proceeds pool idle isEntry run)

end Runs

/-- What a discipline has to establish about the programs of a pool. -/
structure Guaranteed (D : Discipline ι Op Res σ) (entry : Prog Op Res ρ → Prop)
    (ambient : σ → σ → Prop) (post : ρ → σ → Prop) : Prop where
  entries : ∀ i p s, entry p → D.valid s → D.Safe i post p s
  ambients : ∀ s t, ambient s t → D.valid s → D.valid t ∧ D.grows s t ∧ ∀ i, D.rely i s t
  lasting : ∀ a s t, D.grows s t → post a s → post a t

/-- The shared invariant holds, every thread is safe where it stands, and what
    calls returned is still true. -/
structure Consistent (D : Discipline ι Op Res σ) (post : ρ → σ → Prop)
    (pool : Pool ι Op Res ρ σ) : Prop where
  valid : D.valid pool.shared
  safe : ∀ i p, pool.running i = some p → D.Safe i post p pool.shared
  returned : ∀ a ∈ pool.returned, post a pool.shared

variable {D : Discipline ι Op Res σ} {entry : Prog Op Res ρ → Prop} {ambient : σ → σ → Prop}
  {post : ρ → σ → Prop} {pool next : Pool ι Op Res ρ σ}

theorem step_consistent (sound : Guaranteed D entry ambient post)
    (step : Step D.sem entry ambient pool next) (h : Consistent D post pool) :
    Consistent D post next := by
  cases step with
  | @call i p idle isEntry =>
      refine ⟨h.valid, ?_, h.returned⟩
      intro j q running
      by_cases same : j = i
      · subst same
        obtain rfl : p = q := by simpa using running
        exact sound.entries j p _ isEntry h.valid
      · exact h.safe j q (by simpa [same] using running)
  | @operate i op rest r t running effect =>
      obtain ⟨⟨validT, grown, others⟩, after⟩ :=
        h.safe i _ running _ h.valid (D.rely_refl i _) r t effect
      refine ⟨validT, ?_, fun a member => sound.lasting a _ _ grown (h.returned a member)⟩
      intro j q runningJ
      by_cases same : j = i
      · subst same
        obtain rfl : rest r = q := by simpa using runningJ
        exact after
      · exact (h.safe j q (by simpa [same] using runningJ)).later (others j same)
  | @finish i a running =>
      refine ⟨h.valid, ?_, ?_⟩
      · intro j q runningJ
        by_cases same : j = i
        · subst same
          simp at runningJ
        · exact h.safe j q (by simpa [same] using runningJ)
      · intro b member
        rcases List.mem_cons.mp member with rfl | old
        · exact h.safe i _ running _ h.valid (D.rely_refl i _)
        · exact h.returned b old
  | die i =>
      refine ⟨h.valid, ?_, h.returned⟩
      intro j q runningJ
      by_cases same : j = i
      · subst same
        simp at runningJ
      · exact h.safe j q (by simpa [same] using runningJ)
  | @around t change =>
      obtain ⟨validT, grown, others⟩ := sound.ambients _ _ change h.valid
      exact ⟨validT, fun j q running => (h.safe j q running).later (others j),
        fun a member => sound.lasting a _ _ grown (h.returned a member)⟩

/-- Every interleaving keeps the discipline. -/
theorem consistent (sound : Guaranteed D entry ambient post)
    (steps : Relation.ReflTransGen (Step D.sem entry ambient) pool next)
    (h : Consistent D post pool) : Consistent D post next := by
  induction steps with
  | refl => exact h
  | tail _ step ih => exact step_consistent sound step ih

omit [DecidableEq ι] in
theorem start_consistent {s : σ} (valid : D.valid s) :
    Consistent D post (start s : Pool ι Op Res ρ σ) :=
  ⟨valid, fun _ _ running => by simp [start] at running, by simp [start]⟩

/-- What calls have returned is what such programs can return. -/
theorem returned_of_returns {sem : ι → Sem Op Res σ} {P : ρ → Prop} {s : σ}
    (each : ∀ p, entry p → ∀ a, p.Returns a → P a)
    (steps : Relation.ReflTransGen (Step sem entry ambient) (start s) pool) :
    ∀ a ∈ pool.returned, P a := by
  have guaranteed : Guaranteed (Discipline.unguarded sem) entry ambient fun a _ => P a :=
    ⟨fun _ p _ isEntry _ => .of_returns (each p isEntry),
      fun _ _ _ _ => ⟨trivial, trivial, fun _ => trivial⟩, fun _ _ _ _ holds => holds⟩
  exact (consistent guaranteed steps (start_consistent trivial)).returned

/-- The store only grows along an interleaving. -/
theorem steps_grow (sound : Guaranteed D entry ambient post)
    (grows_refl : ∀ s, D.grows s s) (grows_trans : ∀ s t u, D.grows s t → D.grows t u → D.grows s u)
    (steps : Relation.ReflTransGen (Step D.sem entry ambient) pool next)
    (h : Consistent D post pool) : D.grows pool.shared next.shared := by
  induction steps with
  | refl => exact grows_refl _
  | tail before step ih =>
      have mid := consistent sound before h
      apply grows_trans _ _ _ ih
      cases step with
      | operate running effect =>
          exact (mid.safe _ _ running _ mid.valid (D.rely_refl _ _) _ _ effect).1.2.1
      | around change => exact (sound.ambients _ _ change mid.valid).2.1
      | call | finish | die => exact grows_refl _

end Pool

end EmailServer
