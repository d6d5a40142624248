import EmailServer.Library.Bytes

/-! # Readers of a memory

A reader moves an offset through a memory, and keeps a record of the indices that it has
read. Nothing stops it at the end of the data. It does not have to end.
-/

namespace EmailServer

/-- What can be read from a pointer on. -/
abbrev Memory := Nat → UInt8

/-- From an offset to a value, the offset behind it, and the indices that have been read.
    `none` if it does not end. -/
def Reader (α : Type) := Nat → Option (α × Nat × List Nat)

namespace Reader

variable {α β : Type}

instance : Monad Reader where
  pure a := fun off => some (a, off, [])
  bind x f := fun off =>
    match x off with
    | none => none
    | some (a, off', reads) =>
        match f a off' with
        | none => none
        | some (b, off'', more) => some (b, off'', reads ++ more)

/-- It does not end. -/
def diverge : Reader α := fun _ => none

def offset : Reader Nat := fun off => some (off, off, [])

def advance (n : Nat) : Reader Unit := fun off => some ((), off + n, [])

/-- `buf[off++]` -/
def byte (buf : Memory) : Reader UInt8 := fun off => some (buf off, off + 1, [off])

/-- `buf[off + i]` -/
def peek (buf : Memory) (i : Nat) : Reader UInt8 := fun off => some (buf (off + i), off, [off + i])

/-- The `n` bytes from `buf + off + i` on. -/
def peekBlock (buf : Memory) (i n : Nat) : Reader Bytes := fun off =>
  some ((List.range' (off + i) n).map buf, off, List.range' (off + i) n)

/-- Another place is read, and the offset stays. -/
def elsewhere (place : Nat) (x : Reader α) : Reader α := fun off =>
  match x place with
  | none => none
  | some (a, _, reads) => some (a, off, reads)

def times : Nat → Reader α → Reader (List α)
  | 0, _ => pure []
  | n + 1, x => do
      let a ← x
      let rest ← times n x
      return a :: rest

section Rules

variable {x : Reader α} {f : α → Reader β} {off off' place n i : Nat} {a : α} {b : β}
  {reads : List Nat} {buf : Memory}

theorem pure_some {a' : α} :
    (pure a : Reader α) off = some (a', off', reads) ↔ a' = a ∧ off' = off ∧ reads = [] := by
  change some (a, off, []) = some (a', off', reads) ↔ _
  simp [eq_comm]

theorem bind_eq : (x >>= f) off = (x off).bind fun r =>
    (f r.1 r.2.1).map fun s => (s.1, s.2.1, r.2.2 ++ s.2.2) := by
  change (match x off with
    | none => none
    | some (a, off', reads) =>
        match f a off' with
        | none => none
        | some (b, off'', more) => some (b, off'', reads ++ more)) = _
  cases x off with
  | none => rfl
  | some r =>
      obtain ⟨a, mid, first⟩ := r
      dsimp only [Option.bind_some]
      cases f a mid <;> rfl

theorem bind_ran {mid : Nat} {first : List Nat} (ran : x off = some (a, mid, first)) :
    (x >>= f) off = (f a mid).map fun r => (r.1, r.2.1, first ++ r.2.2) := by
  rw [bind_eq, ran]
  rfl

theorem bind_none (ran : x off = none) : (x >>= f) off = none := by
  rw [bind_eq, ran]
  rfl

theorem elsewhere_eq : elsewhere place x off = (x place).map fun r => (r.1, off, r.2.2) := by
  unfold elsewhere
  cases x place <;> rfl

theorem bind_some : (x >>= f) off = some (b, off', reads) ↔ ∃ a mid first second,
    x off = some (a, mid, first) ∧ f a mid = some (b, off', second) ∧ reads = first ++ second := by
  rw [bind_eq, Option.bind_eq_some_iff]
  constructor
  · rintro ⟨⟨a, mid, first⟩, here, later⟩
    obtain ⟨⟨_, _, second⟩, next, same⟩ := Option.map_eq_some_iff.mp later
    cases same
    exact ⟨a, mid, first, second, here, next, rfl⟩
  · rintro ⟨a, mid, first, second, here, next, rfl⟩
    exact ⟨(a, mid, first), here, by rw [next]; rfl⟩

theorem times_succ {as : List α} : times (n + 1) x off = some (as, off', reads) ↔
    ∃ a mid first rest second, x off = some (a, mid, first) ∧
      times n x mid = some (rest, off', second) ∧ as = a :: rest ∧ reads = first ++ second := by
  rw [times, bind_some]
  constructor
  · rintro ⟨a, mid, first, second, here, remaining, rfl⟩
    obtain ⟨rest, e, more, none_, later, ends, rfl⟩ := bind_some.mp remaining
    obtain ⟨rfl, rfl, rfl⟩ := pure_some.mp ends
    exact ⟨a, mid, first, rest, more, here, later, rfl, by rw [List.append_nil]⟩
  · rintro ⟨a, mid, first, rest, second, here, later, rfl, rfl⟩
    refine ⟨a, mid, first, second, here, bind_some.mpr ?_, rfl⟩
    exact ⟨rest, off', second, [], later, pure_some.mpr ⟨rfl, rfl, rfl⟩, by rw [List.append_nil]⟩

end Rules

/-! ## Readers with fuel -/

/-- With enough fuel it ends at `e`, with this value. -/
def Settles (x : Nat → Reader α) (off : Nat) (a : α) (e : Nat) : Prop :=
  ∃ n, ∀ fuel, n ≤ fuel → ∃ reads, x fuel off = some (a, e, reads)

section Settles

variable {x : Nat → Reader α} {f : Nat → α → Reader β} {off mid e e' : Nat} {a b' : α} {b : β}

theorem Settles.of_ran {y : Reader α} (ran : ∃ reads, y off = some (a, e, reads)) :
    Settles (fun _ => y) off a e := ⟨0, fun _ _ => ran⟩

theorem Settles.round {y : Nat → Reader α} (rest : Settles x mid a e)
    (round : ∀ fuel reads, x fuel mid = some (a, e, reads) →
      ∃ more, y (fuel + 1) off = some (b', e', more)) : Settles y off b' e' := by
  obtain ⟨n, later⟩ := rest
  refine ⟨n + 1, fun fuel enough => ?_⟩
  obtain ⟨fuel, rfl⟩ : ∃ more, fuel = more + 1 := ⟨fuel - 1, by omega⟩
  obtain ⟨reads, ran⟩ := later fuel (by omega)
  exact round fuel reads ran

theorem Settles.bind (first : Settles x off a mid) (second : Settles (fun fuel => f fuel a) mid b e) :
    Settles (fun fuel => x fuel >>= f fuel) off b e := by
  obtain ⟨n, here⟩ := first
  obtain ⟨m, next⟩ := second
  refine ⟨max n m, fun fuel enough => ?_⟩
  obtain ⟨reads, ran⟩ := here fuel ((Nat.le_max_left n m).trans enough)
  obtain ⟨more, ran'⟩ := next fuel ((Nat.le_max_right n m).trans enough)
  exact ⟨reads ++ more, bind_some.mpr ⟨a, mid, reads, more, ran, ran', rfl⟩⟩

theorem Settles.times_zero : Settles (fun fuel => times 0 (x fuel)) off [] off := .of_ran ⟨[], rfl⟩

theorem Settles.times_succ {n : Nat} {as : List α} (first : Settles x off a mid)
    (rest : Settles (fun fuel => times n (x fuel)) mid as e) :
    Settles (fun fuel => times (n + 1) (x fuel)) off (a :: as) e :=
  first.bind (f := fun fuel a => times n (x fuel) >>= fun as => pure (a :: as))
    (rest.bind (f := fun _ as => pure (a :: as)) (.of_ran ⟨[], rfl⟩))

end Settles

end Reader

end EmailServer
