import EmailServer.Dns.DnsPacket
import EmailServer.Library.Chasing
import Mathlib.Order.Interval.Finset.Nat

/-! # Names that are read to their end

A pointer can lead anywhere in the packet, and no pointer is counted. A name ends unless its
pointers lead in a circle.
-/

namespace EmailServer.Dns

open EmailServer.Bytes Relation

/-- The labels from an offset on lead to a pointer, which leads to another offset. -/
inductive Leads (buf : Memory) (max : Nat) : Nat → Nat → Prop where
  | pointer {off : Nat} : off < max → isPointer (buf off) = true →
      Leads buf max off (target (buf off) (buf (off + 1)))
  | label {off p : Nat} : off < max → buf off ≠ 0 → isPointer (buf off) = false →
      Leads buf max (off + 1 + (buf off).toNat) p → Leads buf max off p

/-- No offset that the pointers lead to leads back to itself. -/
def Acyclic (buf : Memory) (max off : Nat) : Prop :=
  ∀ p, ReflTransGen (Leads buf max) off p → ¬ TransGen (Leads buf max) p p

section Chain

variable {buf : Memory} {max fuel off p : Nat} {name v : Bytes} {e : Nat} {reads : List Nat}

theorem target_lt (len low : UInt8) : target len low < 2 ^ 14 := by
  have high : (len &&& 0x3F).toNat < 2 ^ 6 := by
    rw [UInt8.toNat_and]
    exact lt_of_le_of_lt Nat.and_le_right (by decide)
  have low' : low.toNat < 2 ^ 14 := lt_of_lt_of_le low.toNat_lt (by decide)
  refine Nat.or_lt_two_pow ?_ low'
  rw [Nat.shiftLeft_eq]
  omega

theorem Leads.target_lt (leads : Leads buf max off p) : p < 2 ^ 14 := by
  induction leads with
  | pointer => exact EmailServer.Dns.target_lt _ _
  | label _ _ _ _ ih => exact ih

theorem Leads.less (leads : Leads buf max off p)
    (read : (readName buf max fuel name off).isSome) :
    ∃ fuel' < fuel, (readName buf max fuel' [] p).isSome := by
  induction leads generalizing fuel name with
  | pointer inside pointer =>
      cases fuel with
      | zero => cases read
      | succ fuel =>
          rw [readName_succ, if_pos inside, if_neg (isPointer_ne_zero pointer), if_pos pointer,
            Option.isSome_map] at read
          exact ⟨fuel, by omega, read⟩
  | label inside nonzero plain _ ih =>
      cases fuel with
      | zero => cases read
      | succ fuel =>
          rw [readName_succ, if_pos inside, if_neg nonzero, if_neg (by simp [plain]),
            Option.isSome_map] at read
          obtain ⟨fuel', less, later⟩ := ih read
          exact ⟨fuel', by omega, later⟩

theorem less_transGen {q : Nat} (leads : TransGen (Leads buf max) p q)
    (read : (readName buf max fuel [] p).isSome) :
    ∃ fuel' < fuel, (readName buf max fuel' [] q).isSome := by
  induction leads with
  | single leads => exact leads.less read
  | tail _ leads ih =>
      obtain ⟨fuel', less, there⟩ := ih
      obtain ⟨fuel'', less', last⟩ := leads.less there
      exact ⟨fuel'', by omega, last⟩

theorem not_cyclic (read : (readName buf max fuel [] p).isSome) :
    ¬ TransGen (Leads buf max) p p := by
  intro cycle
  induction fuel using Nat.strong_induction_on with
  | _ fuel ih =>
      obtain ⟨fuel', less, again⟩ := less_transGen cycle read
      exact ih fuel' less again

/-- The loop goes on behind each label, so a name ends if the next pointer leads to one that
    does. -/
theorem ends_step (next : ∀ p, Leads buf max off p → ∃ v e reads, ReadsName buf max [] p v e reads)
    (name : Bytes) : ∃ v e reads, ReadsName buf max name off v e reads := by
  induction left : max - off using Nat.strong_induction_on generalizing off name with
  | _ left ih =>
      by_cases inside : off < max
      · by_cases zero : buf off = 0
        · exact ⟨_, _, _, .root inside zero⟩
        · by_cases pointer : isPointer (buf off) = true
          · obtain ⟨rest, e, reads, there⟩ := next _ (.pointer inside pointer)
            exact ⟨_, _, _, .pointer inside pointer there⟩
          · have plain : isPointer (buf off) = false := by simpa using pointer
            obtain ⟨v, e, reads, there⟩ := ih (max - (off + 1 + (buf off).toNat)) (by omega)
              (fun p leads => next p (.label inside zero plain leads))
              (addLabel name ((List.range' (off + 1) (buf off).toNat).map buf)) rfl
            exact ⟨_, _, _, .label inside zero plain there⟩
      · exact ⟨_, _, _, .past inside⟩

end Chain

/-- A name is read to its end if and only if its pointers do not lead in a circle. -/
theorem readName_ends_iff (buf : Memory) (max off : Nat) :
    (∃ fuel, (readName buf max fuel [] off).isSome) ↔ Acyclic buf max off := by
  constructor
  · rintro ⟨fuel, read⟩ p behind
    rcases reflTransGen_iff_eq_or_transGen.mp behind with rfl | behind
    · exact not_cyclic read
    · obtain ⟨fuel', -, there⟩ := less_transGen behind read
      exact not_cyclic there
  · intro acyclic
    have few : {p | ∃ off, Leads buf max off p}.Finite :=
      (Set.finite_lt_nat (2 ^ 14)).subset fun p ⟨_, leads⟩ => leads.target_lt
    obtain ⟨v, e, reads, read⟩ :=
      chase few (fun off next => ends_step next []) acyclic
    obtain ⟨fuel, result⟩ := read.enough
    exact ⟨fuel, by simp [result]⟩

/-- A pointer to itself. -/
theorem self_pointer_diverges :
    ¬ ∃ fuel, (readName (fun i => if i = 0 then 0xC0 else 0) 2 fuel [] 0).isSome := by
  rintro ⟨fuel, read⟩
  refine not_cyclic read (.single (.pointer ?_ ?_))
  · decide
  · decide

end EmailServer.Dns
