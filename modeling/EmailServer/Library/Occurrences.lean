import Mathlib.Data.List.Basic

/-! # Occurrences of entries

The entries of a list with the number of times each came before, and what two ways of
looking entries up have in common: the k-th occurrence looks for the k-th instance, or
every occurrence, from the end of the list, looks for the first.
-/

namespace EmailServer

variable {α β : Type} [BEq α]

/-- Each entry with how often it occurs before. -/
def ranked (seen : List α) : List α → List (α × Nat)
  | [] => []
  | a :: entries => (a, seen.count a) :: ranked (a :: seen) entries

variable {seen entries : List α} {a : α} {k : Nat}

theorem ranked_entries : (ranked seen entries).map Prod.fst = entries := by
  induction entries generalizing seen with
  | nil => rfl
  | cons a entries ih => rw [ranked, List.map_cons, ih]

variable [LawfulBEq α]

theorem mem_ranked :
    (a, k) ∈ ranked seen entries ↔ seen.count a ≤ k ∧ k < seen.count a + entries.count a := by
  induction entries generalizing seen with
  | nil => simp [ranked]
  | cons b entries ih =>
      rw [ranked, List.mem_cons, ih]
      by_cases same : a = b
      · subst same
        simp only [Prod.mk.injEq, true_and, List.count_cons_self]
        omega
      · simp [Prod.mk.injEq, same, Ne.symm same]

theorem ranked_filter {found : α × Nat → Option β} {wanted : α → Bool}
    (absent : ∀ a, wanted a = false → ∀ k, found (a, k) = none) :
    (ranked seen entries).filterMap found =
      (ranked (seen.filter wanted) (entries.filter wanted)).filterMap found := by
  induction entries generalizing seen with
  | nil => rfl
  | cons a entries ih =>
      cases present : wanted a with
      | true =>
          have rest := @ih (a :: seen)
          rw [List.filter_cons_of_pos present] at rest
          rw [List.filter_cons_of_pos present, ranked, ranked, List.filterMap_cons,
            List.filterMap_cons, rest, List.count_filter present]
      | false =>
          have missing : ¬ wanted a = true := by simp [present]
          have rest := @ih (a :: seen)
          rw [List.filter_cons_of_neg missing] at rest
          rw [List.filter_cons_of_neg missing, ranked,
            List.filterMap_cons_none (absent a present _), rest]

theorem map_some_filterMap {γ : Type} {f : γ → Option β} {l : List γ}
    (found : ∀ x ∈ l, (f x).isSome) : (l.filterMap f).map some = l.map f := by
  induction l with
  | nil => rfl
  | cons x l ih =>
      obtain ⟨y, here⟩ := Option.isSome_iff_exists.mp (found x List.mem_cons_self)
      rw [List.filterMap_cons_some here, List.map_cons, List.map_cons, here,
        ih fun z there => found z (List.mem_cons_of_mem x there)]

section Lookup

variable {instances : α → List β} {entryOf : β → α}

/-- The first instance of every entry, from the end of the list, against the k-th instance
    of each k-th occurrence: the same, if and only if the list reads the same backwards
    and the instances that occurrences ask for are all alike. -/
theorem first_eq_ranked_iff (own : ∀ a, ∀ b ∈ instances a, entryOf b = a)
    (present : ∀ a ∈ entries, instances a ≠ []) :
    entries.reverse.filterMap (fun a => (instances a)[0]?) =
        (ranked [] entries).filterMap (fun p => (instances p.1)[p.2]?) ↔
      entries.reverse = entries ∧
        ∀ a ∈ entries, ∀ k < entries.count a, (instances a)[k]? = (instances a)[0]? := by
  have firsts : ∀ a ∈ entries.reverse, ((instances a)[0]?).isSome := by
    intro a member
    have nonempty := present a (List.mem_reverse.mp member)
    simpa [List.length_pos_iff] using nonempty
  have occurrence : ∀ a ∈ entries, ∀ k < entries.count a, (a, k) ∈ ranked [] entries := by
    intro a _ k below
    exact mem_ranked.mpr ⟨by simp, by simpa using below⟩
  have named : ∀ {a : α} {k : Nat}, ((instances a)[k]?).isSome →
      ((instances a)[k]?).map entryOf = some a := by
    intro a k found
    obtain ⟨b, found⟩ := Option.isSome_iff_exists.mp found
    have same := own a b (List.mem_of_getElem? found)
    simp [found, same]
  constructor
  · intro same
    have ranks : ∀ p ∈ ranked [] entries, ((instances p.1)[p.2]?).isSome := by
      rw [← List.filterMap_length_eq_length, ← same, List.filterMap_length_eq_length.mpr firsts,
        List.length_reverse]
      conv_lhs => rw [← @ranked_entries _ _ [] entries, List.length_map]
    have answers := congrArg (List.map some) same
    rw [map_some_filterMap firsts, map_some_filterMap ranks] at answers
    have backwards : entries.reverse = entries := by
      have firstNames : (entries.reverse.map fun a => (instances a)[0]?).map (Option.map entryOf) =
          entries.reverse.map some := by
        rw [List.map_map]
        exact List.map_congr_left fun a member => named (firsts a member)
      have rankNames : ((ranked [] entries).map fun p => (instances p.1)[p.2]?).map
          (Option.map entryOf) = entries.map some := by
        conv_rhs => rw [← @ranked_entries _ _ [] entries, List.map_map]
        rw [List.map_map]
        exact List.map_congr_left fun p member => named (ranks p member)
      rw [answers, rankNames] at firstNames
      exact List.map_injective_iff.mpr (fun _ _ => Option.some.inj) firstNames.symm
    refine ⟨backwards, ?_⟩
    rw [backwards] at answers
    conv_lhs at answers => rw [← @ranked_entries _ _ [] entries, List.map_map]
    intro a member k below
    exact (List.map_inj_left.mp answers _ (occurrence a member k below)).symm
  · intro ⟨backwards, alike⟩
    have answers : entries.map (fun a => (instances a)[0]?) =
        (ranked [] entries).map (fun p => (instances p.1)[p.2]?) := by
      conv_lhs => rw [← @ranked_entries _ _ [] entries, List.map_map]
      refine List.map_congr_left fun p member => ?_
      obtain ⟨a, k⟩ := p
      have below := (mem_ranked.mp member).2
      rw [List.count_nil, Nat.zero_add] at below
      exact (alike a (List.count_pos_iff.mp (Nat.zero_lt_of_lt below)) k below).symm
    have found := congrArg (List.filterMap id) answers
    rw [List.filterMap_map, List.filterMap_map] at found
    rw [backwards]
    exact found

end Lookup

end EmailServer
