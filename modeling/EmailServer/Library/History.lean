import Mathlib.Data.List.DropRight

/-! # Histories

What a law says about one event often depends on the events before it: which
of them came last, and what has happened since. A history is a list, oldest
event first.
-/

namespace EmailServer

variable {α β : Type}

/-- What `f` reads off the last event it has something to say about. -/
def latest (f : α → Option β) (past : List α) : Option β := (past.filterMap f).getLast?

@[simp] theorem latest_nil (f : α → Option β) : latest f [] = none := rfl

@[simp] theorem latest_concat (f : α → Option β) (past : List α) (x : α) :
    latest f (past ++ [x]) = (f x).or (latest f past) := by
  cases read : f x <;> simp [latest, List.filterMap_append, read]

theorem latest_cons (f : α → Option β) (x : α) (later : List α) :
    latest f (x :: later) = (latest f later).or (f x) := by
  induction later using List.reverseRecOn with
  | nil => simp [latest]
  | append_singleton earlier y ih =>
      rw [← List.cons_append, latest_concat, latest_concat, ih, Option.or_assoc]

theorem latest_none {f : α → Option β} {past : List α} :
    latest f past = none ↔ ∀ x ∈ past, f x = none := by
  simp [latest]

theorem latest_mem {f : α → Option β} {past : List α} {y : β} (last : latest f past = some y) :
    ∃ x ∈ past, f x = some y := List.mem_filterMap.mp (List.mem_of_getLast? last)

theorem latest_filterMap {γ : Type} (f : β → Option γ) (g : α → Option β) (past : List α) :
    latest f (past.filterMap g) = latest (fun x => (g x).bind f) past := by
  simp [latest, List.filterMap_filterMap]

theorem latest_map {γ : Type} (f : α → Option β) (g : β → γ) (past : List α) :
    latest (fun x => (f x).map g) past = (latest f past).map g := by
  simp [latest, ← List.map_filterMap]

theorem forall_concat {P : α → Prop} {past : List α} {x : α} (old : ∀ y ∈ past, P y) (new : P x) :
    ∀ y ∈ past ++ [x], P y :=
  List.forall_mem_append.mpr ⟨old, List.forall_mem_singleton.mpr new⟩

theorem pairwise_concat {R : α → α → Prop} {past : List α} {x : α} (ordered : past.Pairwise R)
    (last : ∀ y ∈ past, R y x) : (past ++ [x]).Pairwise R := by
  refine List.pairwise_append.mpr ⟨ordered, List.pairwise_singleton _ _, fun y member z single => ?_⟩
  obtain rfl := List.mem_singleton.mp single
  exact last y member

theorem concat_split {past earlier since : List α} {x y : α} :
    past ++ [x] = earlier ++ y :: since ↔
      (past = earlier ∧ x = y ∧ since = []) ∨
        ∃ front, since = front ++ [x] ∧ past = earlier ++ y :: front := by
  constructor
  · intro all
    induction since using List.reverseRecOn with
    | nil =>
        obtain ⟨same, last⟩ := List.append_inj' all rfl
        exact .inl ⟨same, List.singleton_inj.mp last, rfl⟩
    | append_singleton front z _ =>
        rw [← List.cons_append, ← List.append_assoc] at all
        obtain ⟨same, last⟩ := List.append_inj' all rfl
        exact .inr ⟨front, by rw [List.singleton_inj.mp last], same⟩
  · rintro (⟨rfl, rfl, rfl⟩ | ⟨front, rfl, rfl⟩)
    · rfl
    · simp

/-- `P` holds of each event, given those before it. The list goes on from `past`. -/
def Along (P : List α → α → Prop) (past : List α) : List α → Prop
  | [] => True
  | x :: rest => P past x ∧ Along P (past ++ [x]) rest

instance decidableAlong (P : List α → α → Prop) [∀ past x, Decidable (P past x)] :
    ∀ past events, Decidable (Along P past events)
  | _, [] => inferInstanceAs (Decidable True)
  | past, x :: rest =>
      let _ := decidableAlong P (past ++ [x]) rest
      inferInstanceAs (Decidable (P past x ∧ Along P (past ++ [x]) rest))

theorem Along.mono {P Q : List α → α → Prop} {past events : List α} (along : Along P past events)
    (weaken : ∀ past x, P past x → Q past x) : Along Q past events := by
  induction events generalizing past with
  | nil => trivial
  | cons y rest ih => exact ⟨weaken _ _ along.1, ih along.2⟩

theorem Along.and {P Q : List α → α → Prop} {past events : List α} (left : Along P past events)
    (right : Along Q past events) : Along (fun past x => P past x ∧ Q past x) past events := by
  induction events generalizing past with
  | nil => trivial
  | cons y rest ih => exact ⟨⟨left.1, right.1⟩, ih left.2 right.2⟩

theorem Along.trivial (past events : List α) : Along (fun _ _ => True) past events := by
  induction events generalizing past with
  | nil => exact True.intro
  | cons y rest ih => exact ⟨True.intro, ih _⟩

theorem along_forall {P : α → Prop} {past events : List α} :
    Along (fun _ x => P x) past events ↔ ∀ x ∈ events, P x := by
  induction events generalizing past with
  | nil => simp [Along]
  | cons y rest ih => simp [Along, ih]

@[simp] theorem along_concat {P : List α → α → Prop} {past events : List α} {x : α} :
    Along P past (events ++ [x]) ↔ Along P past events ∧ P (past ++ events) x := by
  induction events generalizing past with
  | nil => simp [Along]
  | cons y rest ih => simp [Along, ih, and_assoc]

/-- Events of which `P` says the same as `Q`. -/
theorem Along.congr {P Q : List α → α → Prop} {past events : List α}
    (same : Along (fun past x => P past x ↔ Q past x) past events) :
    Along P past events ↔ Along Q past events := by
  induction events generalizing past with
  | nil => rfl
  | cons y rest ih => exact and_congr same.1 (ih same.2)

/-- Each of a list of ordered events comes after the ordered ones before it. -/
theorem along_pairwise {R : α → α → Prop} {events : List α} (ordered : events.Pairwise R) :
    Along (fun past x => past.Pairwise R ∧ ∀ y ∈ past, R y x) [] events := by
  induction events using List.reverseRecOn with
  | nil => trivial
  | append_singleton past x ih =>
      obtain ⟨before, -, last⟩ := List.pairwise_append.mp ordered
      exact along_concat.mpr ⟨ih before, before, fun y member => last y member x (.head _)⟩

/-- There was an event with `P`, and none with `Q` since. -/
def Since (P Q : α → Prop) (past : List α) : Prop :=
  ∃ earlier x later, past = earlier ++ x :: later ∧ P x ∧ ∀ y ∈ later, ¬ Q y

namespace Since

variable {P Q : α → Prop} {past : List α} {x : α}

theorem now (here : P x) : Since P Q (past ++ [x]) := ⟨past, x, [], rfl, here, by simp⟩

theorem later (before : Since P Q past) (quiet : ¬ Q x) : Since P Q (past ++ [x]) := by
  obtain ⟨earlier, y, since, rfl, here, none_⟩ := before
  exact ⟨earlier, y, since ++ [x], by simp, here, forall_concat none_ quiet⟩

@[simp] theorem nil : ¬ Since P Q [] := by
  rintro ⟨earlier, x, later, all, -⟩
  simp at all

@[simp] theorem concat : Since P Q (past ++ [x]) ↔ P x ∨ ¬ Q x ∧ Since P Q past := by
  constructor
  · rintro ⟨earlier, y, since, all, here, none_⟩
    rcases concat_split.mp all with ⟨rfl, rfl, rfl⟩ | ⟨front, rfl, rfl⟩
    · exact .inl here
    · exact .inr ⟨none_ x (by simp), earlier, y, front, rfl, here, fun z there =>
        none_ z (by simp [there])⟩
  · rintro (here | ⟨quiet, before⟩)
    · exact now here
    · exact before.later quiet

end Since

/-- `x` is an event with `P` that `n` more with `P` have followed, and `Q` has held of each
    event since. -/
def Followed (P : α → Bool) (Q : List α → α → Prop) (n : Nat) (past : List α) (x : α) : Prop :=
  ∃ earlier later, past = earlier ++ x :: later ∧ P x ∧ later.countP P = n ∧
    Along Q (earlier ++ [x]) later

namespace Followed

variable {P : α → Bool} {Q : List α → α → Prop} {n : Nat} {past : List α} {x y : α}

theorem now (here : P x) : Followed P Q 0 (past ++ [x]) x := ⟨past, [], rfl, here, rfl, trivial⟩

theorem later (before : Followed P Q n past x) (kept : Q past y) :
    Followed P Q (n + if P y then 1 else 0) (past ++ [y]) x := by
  obtain ⟨earlier, since, rfl, here, counted, along⟩ := before
  refine ⟨earlier, since ++ [y], by simp, here, ?_, along_concat.mpr ⟨along, by simpa using kept⟩⟩
  rw [List.countP_append, counted, List.countP_singleton]

@[simp] theorem nil : ¬ Followed P Q n [] x := by
  rintro ⟨earlier, since, all, -⟩
  simp at all

theorem mem (followed : Followed P Q n past x) : x ∈ past ∧ P x := by
  obtain ⟨earlier, since, rfl, here, -⟩ := followed
  exact ⟨by simp, here⟩

theorem concat : Followed P Q n (past ++ [y]) x ↔ x = y ∧ P y ∧ n = 0 ∨
    Q past y ∧ ∃ m, n = m + (if P y then 1 else 0) ∧ Followed P Q m past x := by
  constructor
  · rintro ⟨earlier, since, all, here, counted, along⟩
    rcases concat_split.mp all with ⟨rfl, rfl, rfl⟩ | ⟨front, rfl, rfl⟩
    · exact .inl ⟨rfl, here, counted.symm⟩
    · obtain ⟨before, kept⟩ := along_concat.mp along
      refine .inr ⟨by simpa using kept, front.countP P, ?_, earlier, front, rfl, here, rfl, before⟩
      rw [← counted, List.countP_append, List.countP_singleton]
  · rintro (⟨rfl, here, rfl⟩ | ⟨kept, m, rfl, before⟩)
    · exact now here
    · exact before.later kept

end Followed

end EmailServer
