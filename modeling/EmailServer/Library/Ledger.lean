import EmailServer.Library.Program

/-! # Ledgers

A thread that takes and gives back shared resources keeps a ledger, which only
its own operations change. Whatever other threads do in between, the ledger at
the end is found by following the thread's program alone.
-/

namespace EmailServer

/-- How a thread's operations are entered, and what has to stand in the ledger
    before an operation. -/
structure Ledger (Op : Type) (Res : Op → Type) (γ : Type) where
  book : γ → (op : Op) → Res op → γ
  due : γ → Op → Prop

namespace Ledger

variable {Op Op' γ α β : Type} {Res : Op → Type} {Res' : Op' → Type} (L : Ledger Op Res γ)

/-- Whatever the operations answer, everything is due when it is done, and the
    ledger ends in `post`. -/
def Balances (post : α → γ → Prop) : Prog Op Res α → γ → Prop
  | .pure value, g => post value g
  | .step op next, g => L.due g op ∧ ∀ r, Balances post (next r) (L.book g op r)

variable {L} {post : α → γ → Prop} {g : γ}

@[simp] theorem balances_pure {value : α} : L.Balances post (.pure value) g ↔ post value g := Iff.rfl

@[simp] theorem balances_step {op : Op} {next : Res op → Prog Op Res α} :
    L.Balances post (.step op next) g ↔
      L.due g op ∧ ∀ r, L.Balances post (next r) (L.book g op r) := Iff.rfl

theorem Balances.bind {p : Prog Op Res α} {next : α → Prog Op Res β} {post : β → γ → Prop}
    {inner : α → γ → Prop} (first : L.Balances inner p g)
    (rest : ∀ value g, inner value g → L.Balances post (next value) g) :
    L.Balances post (p.bind next) g := by
  induction p generalizing g with
  | pure value => exact rest value g first
  | step op after ih => exact ⟨first.1, fun r => ih r (first.2 r)⟩

theorem Balances.weaken {p : Prog Op Res α} {post' : α → γ → Prop} (balances : L.Balances post p g)
    (weaker : ∀ value g, post value g → post' value g) : L.Balances post' p g := by
  induction p generalizing g with
  | pure value => exact weaker value g balances
  | step op next ih => exact ⟨balances.1, fun r => ih r (balances.2 r)⟩

/-- The ledger of a larger set of operations, for the programs over a smaller one. -/
def narrow (L : Ledger Op' Res' γ) (inject : Op → Op') (answer : ∀ op, Res op → Res' (inject op)) :
    Ledger Op Res γ where
  book g op r := L.book g (inject op) (answer op r)
  due g op := L.due g (inject op)

theorem Balances.embed {L : Ledger Op' Res' γ} {inject : Op → Op'}
    {answer : ∀ op, Res op → Res' (inject op)} {back : ∀ op, Res' (inject op) → Res op}
    (same : ∀ op r, answer op (back op r) = r) {p : Prog Op Res α}
    (balances : (L.narrow inject answer).Balances post p g) :
    L.Balances post (p.embed inject back) g := by
  induction p generalizing g with
  | pure value => exact balances
  | step op next ih =>
      refine ⟨balances.1, fun r => ?_⟩
      have booked : (L.narrow inject answer).book g op (back op r) = L.book g (inject op) r :=
        congrArg (L.book g (inject op)) (same op r)
      rw [← booked]
      exact ih (back op r) (balances.2 (back op r))

end Ledger

end EmailServer
