import Mathlib.Algebra.BigOperators.Group.Finset.Piecewise
import Mathlib.Data.Finite.Defs
import Mathlib.Logic.Hydra
import EmailServer.Library.Inevitable
import EmailServer.Library.Interleaving

/-! # Threads under one mutex

Programs that unlock what they lock, and never lock twice, do not deadlock.
Whatever the schedule, all the calls in progress return: `Guarded.quiet`.
-/

namespace EmailServer

/-- What an operation does to the mutex. -/
inductive LockUse where
  | acquire
  | release
  | neither

/-- A mutex in the store, as the operations see it. Only locking can wait. -/
structure Mutex {ι Op σ : Type} {Res : Op → Type} (sem : ι → Sem Op Res σ)
    (ambient : σ → σ → Prop) where
  use : Op → LockUse
  holder : σ → Option ι
  acquired : ∀ i op s r t, use op = .acquire → sem i op s r t → holder s = none ∧ holder t = some i
  released : ∀ i op s r t, use op = .release → sem i op s r t → holder t = none
  kept : ∀ i op s r t, use op = .neither → sem i op s r t → holder t = holder s
  around : ∀ s t, ambient s t → holder t = holder s
  proceeds : ∀ i op s, (use op = .acquire → holder s = none) → ∃ r t, sem i op s r t

namespace Prog

variable {Op α β : Type} {Res : Op → Type} {use : Op → LockUse}

/-- From holding the mutex or not (`held`), every path locks and unlocks in turn
    and ends without it. -/
def Balanced (use : Op → LockUse) : Bool → Prog Op Res α → Prop
  | held, .pure _ => held = false
  | held, .step op next =>
      match use op with
      | .acquire => held = false ∧ ∀ r, Balanced use true (next r)
      | .release => held = true ∧ ∀ r, Balanced use false (next r)
      | .neither => ∀ r, Balanced use held (next r)

theorem Balanced.bind {held : Bool} {p : Prog Op Res α} {next : α → Prog Op Res β}
    (plain : p.Uses fun op => use op = .neither) (rest : ∀ a, (next a).Balanced use held) :
    (p.bind next).Balanced use held := by
  induction p with
  | pure value => exact rest value
  | step op after ih =>
      simp only [step_bind, Balanced, plain.1]
      exact fun r => ih r (plain.2 r)

/-- `q` is what is left of `p` after its first operation. -/
def After (q p : Prog Op Res α) : Prop := ∃ op next r, p = .step op next ∧ q = next r

theorem after_wf : WellFounded (After : Prog Op Res α → Prog Op Res α → Prop) := by
  constructor
  intro p
  induction p with
  | pure value => exact ⟨_, fun q ⟨_, _, _, same, _⟩ => nomatch same⟩
  | step op next ih =>
      refine ⟨_, fun q ⟨_, _, r, same, left⟩ => ?_⟩
      cases same
      exact left ▸ ih r

end Prog

namespace Pool

variable {ι Op ρ σ : Type} {Res : Op → Type} [DecidableEq ι]

variable {sem : ι → Sem Op Res σ} {entry : Prog Op Res ρ → Prop} {ambient : σ → σ → Prop}
  {pool next : Pool ι Op Res ρ σ}

/-- A step of a call in progress, after the surroundings may have changed the store. -/
def Advances (sem : ι → Sem Op Res σ) (ambient : σ → σ → Prop)
    (pool next : Pool ι Op Res ρ σ) : Prop :=
  ∃ s, (s = pool.shared ∨ ambient pool.shared s) ∧ Works sem { pool with shared := s } next

/-- The calls in progress of the threads `among`. -/
def calls (among : Finset ι) (pool : Pool ι Op Res ρ σ) : Multiset (Prog Op Res ρ) :=
  ∑ i ∈ among, (pool.running i).elim 0 ({·})

theorem calls_update {among : Finset ι} {i : ι} {p : Prog Op Res ρ} (member : i ∈ among)
    (running : pool.running i = some p) (shared : σ) (left : Option (Prog Op Res ρ))
    (returned : List ρ) :
    calls among ⟨shared, Function.update pool.running i left, returned⟩ + {p} =
      calls among pool + left.elim 0 ({·}) := by
  have split : ∀ f : ι → Option (Prog Op Res ρ),
      ∑ j ∈ among, ((f j).elim 0 ({·}) : Multiset (Prog Op Res ρ)) =
        (f i).elim 0 ({·}) + ∑ j ∈ among.erase i, (f j).elim 0 ({·}) :=
    fun f => (Finset.add_sum_erase among (fun j => (f j).elim 0 ({·})) member).symm
  have others : ∑ j ∈ among.erase i,
      ((Function.update pool.running i left j).elim 0 ({·}) : Multiset (Prog Op Res ρ)) =
        ∑ j ∈ among.erase i, (pool.running j).elim 0 ({·}) :=
    Finset.sum_congr rfl fun j there => by
      rw [Function.update_of_ne (Finset.ne_of_mem_erase there)]
  simp only [calls, split, others, Function.update_self, running, Option.elim_some]
  ac_rfl

theorem Works.cut {among : Finset ι} (work : Works sem pool next)
    (all : ∀ i, pool.running i ≠ none → i ∈ among) :
    Relation.CutExpand Prog.After (calls among next) (calls among pool) := by
  cases work with
  | @operate i op after r t running effect =>
      refine ⟨{after r}, .step op after, ?_, calls_update (all i (by simp [running])) running _ _ _⟩
      intro q left
      obtain rfl := Multiset.mem_singleton.mp left
      exact ⟨op, after, r, rfl, rfl⟩
  | @finish i a running =>
      refine ⟨0, .pure a, by simp, ?_⟩
      simpa using calls_update (all i (by simp [running])) running pool.shared none _

theorem Works.among {among : Finset ι} (work : Works sem pool next)
    (all : ∀ i, pool.running i ≠ none → i ∈ among) : ∀ i, next.running i ≠ none → i ∈ among := by
  cases work with
  | @operate i op after r t running effect =>
      intro j runs
      by_cases same : j = i
      · exact same ▸ all i (by simp [running])
      · exact all j (by simpa [same] using runs)
  | @finish i a running =>
      intro j runs
      by_cases same : j = i
      · simp [same] at runs
      · exact all j (by simpa [same] using runs)

/-- Finitely many calls are in progress; the holder of the mutex is among them and
    each of them goes on to unlock what it holds. -/
structure Guarded (mutex : Mutex sem ambient) (pool : Pool ι Op Res ρ σ) : Prop where
  finite : ∃ among : Finset ι, ∀ i, pool.running i ≠ none → i ∈ among
  balanced : ∀ i p, pool.running i = some p →
    p.Balanced mutex.use (decide (mutex.holder pool.shared = some i))
  holder : ∀ i, mutex.holder pool.shared = some i → pool.running i ≠ none

namespace Guarded

variable {mutex : Mutex sem ambient}

theorem start {s : σ} (free : mutex.holder s = none) :
    Guarded mutex (Pool.start s : Pool ι Op Res ρ σ) :=
  ⟨⟨∅, by simp [Pool.start]⟩, by simp [Pool.start], by simp [Pool.start, free]⟩

theorem around {s : σ} (h : Guarded mutex pool) (change : ambient pool.shared s) :
    Guarded mutex { pool with shared := s } := by
  have same := mutex.around _ _ change
  exact ⟨h.finite, by simpa only [same] using h.balanced, by simpa only [same] using h.holder⟩

theorem call {i : ι} {p : Prog Op Res ρ} (h : Guarded mutex pool) (idle : pool.running i = none)
    (balanced : p.Balanced mutex.use false) :
    Guarded mutex { pool with running := Function.update pool.running i (some p) } := by
  have free : mutex.holder pool.shared ≠ some i := fun held => h.holder i held idle
  obtain ⟨among, all⟩ := h.finite
  refine ⟨⟨insert i among, ?_⟩, ?_, ?_⟩
  · intro j runs
    by_cases same : j = i
    · simp [same]
    · exact Finset.mem_insert_of_mem (all j (by simpa [same] using runs))
  · intro j q running
    by_cases same : j = i
    · subst same
      obtain rfl : p = q := by simpa using running
      simpa [free] using balanced
    · exact h.balanced j q (by simpa [same] using running)
  · intro j held
    have other : j ≠ i := fun same => free (same ▸ held)
    simpa [other] using h.holder j held

theorem operated {i : ι} {op : Op} {after : Res op → Prog Op Res ρ} {r : Res op} {t : σ}
    (h : Guarded mutex pool) (running : pool.running i = some (.step op after))
    (effect : sem i op pool.shared r t) :
    (after r).Balanced mutex.use (decide (mutex.holder t = some i)) ∧
      ∀ j, j ≠ i → (mutex.holder t = some j ↔ mutex.holder pool.shared = some j) := by
  have balanced := h.balanced i _ running
  simp only [Prog.Balanced] at balanced
  cases use : mutex.use op with
  | acquire =>
      obtain ⟨free, taken⟩ := mutex.acquired i op _ r t use effect
      simp only [use] at balanced
      refine ⟨by simpa [taken] using balanced.2 r, fun j other => ?_⟩
      simp [free, taken, Ne.symm other]
  | release =>
      have free := mutex.released i op _ r t use effect
      simp only [use, decide_eq_true_eq] at balanced
      refine ⟨by simpa [free] using balanced.2 r, fun j other => ?_⟩
      simp [free, balanced.1, Ne.symm other]
  | neither =>
      simp only [use] at balanced
      rw [mutex.kept i op _ r t use effect]
      exact ⟨balanced r, fun j _ => Iff.rfl⟩

theorem work (h : Guarded mutex pool) (work : Works sem pool next) : Guarded mutex next := by
  obtain ⟨among, all⟩ := h.finite
  have finite := work.among all
  cases work with
  | @operate i op after r t running effect =>
      obtain ⟨left, others⟩ := h.operated running effect
      refine ⟨⟨among, finite⟩, ?_, ?_⟩
      · intro j q runs
        by_cases same : j = i
        · subst same
          obtain rfl : after r = q := by simpa using runs
          exact left
        · simpa only [others j same] using h.balanced j q (by simpa [same] using runs)
      · intro j held
        by_cases same : j = i
        · simp [same]
        · simpa [same] using h.holder j ((others j same).mp held)
  | @finish i a running =>
      have free : mutex.holder pool.shared ≠ some i := by
        simpa [Prog.Balanced] using h.balanced i _ running
      refine ⟨⟨among, finite⟩, ?_, ?_⟩
      · intro j q runs
        by_cases same : j = i
        · simp [same] at runs
        · exact h.balanced j q (by simpa [same] using runs)
      · intro j held
        have other : j ≠ i := fun same => free (same ▸ held)
        simpa [other] using h.holder j held

theorem proceeds (h : Guarded mutex pool)
    (entries : ∀ p, entry p → p.Balanced mutex.use false)
    (move : Proceeds sem entry ambient pool next) : Guarded mutex next := by
  cases move with
  | call idle isEntry => exact h.call idle (entries _ isEntry)
  | work work => exact h.work work
  | around change => exact h.around change

theorem advances (h : Guarded mutex pool) (move : Advances sem ambient pool next) :
    Guarded mutex next := by
  obtain ⟨s, rfl | change, work⟩ := move
  · exact h.work work
  · exact (h.around change).work work

theorem runs (h : Guarded mutex pool) (entries : ∀ p, entry p → p.Balanced mutex.use false)
    (moves : Relation.ReflTransGen (Proceeds sem entry ambient) pool next) :
    Guarded mutex next := by
  induction moves with
  | refl => exact h
  | tail _ move ih => exact ih.proceeds entries move

/-- A thread whose next operation does not wait can work. -/
theorem can_work (mutex : Mutex sem ambient) {i : ι} {p : Prog Op Res ρ} (running : pool.running i = some p)
    (ready : ∀ op after, p = .step op after → mutex.use op = .acquire →
      mutex.holder pool.shared = none) : ∃ next, Works sem pool next := by
  cases p with
  | pure a => exact ⟨_, .finish running⟩
  | step op after =>
      obtain ⟨r, t, effect⟩ := mutex.proceeds i op pool.shared (ready op after rfl)
      exact ⟨_, .operate running effect⟩

/-- No deadlock: while a call is in progress, some thread can work. -/
theorem progress (h : Guarded mutex pool) (busy : ¬ pool.Quiescent) :
    ∃ next, Works sem pool next := by
  cases held : mutex.holder pool.shared with
  | none =>
      obtain ⟨i, runs⟩ := not_forall.mp busy
      obtain ⟨p, running⟩ := Option.ne_none_iff_exists'.mp runs
      exact can_work mutex running fun _ _ _ _ => held
  | some i =>
      -- the holder does not wait for the mutex again
      obtain ⟨p, running⟩ := Option.ne_none_iff_exists'.mp (h.holder i held)
      refine can_work mutex running fun op after isStep acquires => ?_
      have balanced := h.balanced i p running
      simp [isStep, Prog.Balanced, acquires, held] at balanced

/-- All the calls in progress return. -/
theorem quiet (h : Guarded mutex pool) :
    Inevitably (Advances sem ambient) (Advances sem ambient) Pool.Quiescent pool := by
  obtain ⟨among, all⟩ := h.finite
  refine Inevitably.of_measure Prog.after_wf.cutExpand (calls among)
    (fun pool => Guarded mutex pool ∧ ∀ i, pool.running i ≠ none → i ∈ among) ?_ ?_ ?_ ⟨h, all⟩
  · intro pool next ⟨guarded, within⟩ move
    refine ⟨guarded.advances move, ?_⟩
    obtain ⟨s, -, work⟩ := move
    exact work.among within
  · intro pool next ⟨_, within⟩ _ ⟨s, _, work⟩
    exact work.cut within
  · intro pool ⟨guarded, _⟩ busy
    obtain ⟨next, work⟩ := guarded.progress busy
    exact ⟨next, pool.shared, .inl rfl, work⟩

end Guarded

end Pool

end EmailServer
