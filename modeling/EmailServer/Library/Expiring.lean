import EmailServer.Library.History

/-! # Entries with a lifetime

A store keeps an entry until it is dropped, or until a sweep comes by after its
lifetime is over. Reading does not ask for the sweep: an entry is read as long
as its lifetime lasts, whether or not a sweep has taken it away since.
-/

namespace EmailServer

variable {β : Type}

/-- What happens to an entry. -/
inductive Touch (β : Type) where
  | put (value : β) (ttl : Int)
  | drop
  | sweep

/-- A value and the time up to which it lives. -/
abbrev Entry (β : Type) := Option (β × Int)

namespace Touch

def apply (now : Int) : Touch β → Entry β → Entry β
  | .put value ttl, _ => some (value, now + ttl)
  | .drop, _ => none
  | .sweep, entry => entry.filter fun kept => !decide (now > kept.2)

/-- What is written, if anything is. -/
def writes (now : Int) : Touch β → Option (Entry β)
  | .put value ttl => some (some (value, now + ttl))
  | .drop => some none
  | .sweep => none

end Touch

namespace Entry

/-- The value of an entry that lives. -/
def read (now : Int) (entry : Entry β) : Option β :=
  (entry.filter fun kept => !decide (now > kept.2)).map Prod.fst

/-- The entry after a history of touches, each with its time. -/
def after (touches : List (Int × Touch β)) : Entry β :=
  touches.foldl (fun entry touched => touched.2.apply touched.1 entry) none

/-- What was last written. -/
def written (touches : List (Int × Touch β)) : Option (Entry β) :=
  latest (fun touched => touched.2.writes touched.1) touches

/-- Some sweep came after `expiry`. -/
def Swept (touches : List (Int × Touch β)) (expiry : Int) : Prop :=
  ∃ touched ∈ touches, touched.2 = .sweep ∧ expiry < touched.1

variable {touches : List (Int × Touch β)} {value : β} {expiry now : Int}

theorem after_concat (touched : Int × Touch β) :
    after (touches ++ [touched]) = touched.2.apply touched.1 (after touches) := by
  simp [after]

/-- The entry after what may be a touch. -/
def touched (entry : Entry β) : Option (Int × Touch β) → Entry β
  | none => entry
  | some (now, touch) => touch.apply now entry

theorem after_filterMap_concat {α : Type} (f : α → Option (Int × Touch β)) (past : List α) (e : α) :
    after ((past ++ [e]).filterMap f) = (after (past.filterMap f)).touched (f e) := by
  rw [List.filterMap_append]
  cases touch : f e with
  | none => simp [touch, touched]
  | some timed => simp [touch, touched, after_concat]

theorem written_concat (touched : Int × Touch β) :
    written (touches ++ [touched]) = (touched.2.writes touched.1).or (written touches) :=
  latest_concat _ _ _

/-- Touches in the order of their times, none with a negative lifetime. -/
structure Orderly (touches : List (Int × Touch β)) : Prop where
  times : touches.Pairwise fun earlier later => earlier.1 ≤ later.1
  lifetimes : ∀ touched ∈ touches, ∀ value ttl, touched.2 = .put value ttl → 0 ≤ ttl

theorem Orderly.before {touched : Int × Touch β} (orderly : Orderly (touches ++ [touched])) :
    Orderly touches :=
  ⟨(List.pairwise_append.mp orderly.times).1,
    fun other member => orderly.lifetimes other (List.mem_append_left _ member)⟩

theorem Orderly.last {touched : Int × Touch β} (orderly : Orderly (touches ++ [touched])) :
    ∀ earlier ∈ touches, earlier.1 ≤ touched.1 := by
  intro earlier member
  exact (List.pairwise_append.mp orderly.times).2.2 earlier member touched (List.mem_singleton_self _)

/-- The law of the store: the entry last written, unless a sweep came after its
    lifetime. -/
theorem after_eq (orderly : Orderly touches) :
    (∀ value expiry, written touches = some (some (value, expiry)) →
      (Swept touches expiry ∧ after touches = none) ∨
        (¬ Swept touches expiry ∧ after touches = some (value, expiry))) ∧
    ((∀ kept, written touches ≠ some (some kept)) → after touches = none) := by
  induction touches using List.reverseRecOn with
  | nil =>
      constructor
      · intro value expiry never
        cases never
      · intro _
        rfl
  | append_singleton earlier touched ih =>
      obtain ⟨kept, gone⟩ := ih orderly.before
      rw [after_concat, written_concat]
      obtain ⟨now, touch⟩ := touched
      cases touch with
      | put value ttl =>
          have living : 0 ≤ ttl := orderly.lifetimes (now, .put value ttl) (by simp) value ttl rfl
          refine ⟨?_, fun never => absurd rfl (never _)⟩
          intro value' expiry same
          cases same
          refine .inr ⟨?_, rfl⟩
          intro ⟨sweep, member, isSweep, late⟩
          rcases List.mem_append.mp member with old | new
          · have := orderly.last sweep old
            dsimp only at this
            omega
          · cases List.mem_singleton.mp new
            cases isSweep
      | drop => exact ⟨fun _ _ same => (nomatch same), fun _ => rfl⟩
      | sweep =>
          have swept : ∀ expiry, Swept (earlier ++ [(now, .sweep)]) expiry ↔
              Swept earlier expiry ∨ expiry < now := by
            intro expiry
            simp [Swept, or_and_right, exists_or]
          constructor
          · intro value expiry same
            rw [swept]
            rcases kept value expiry same with ⟨old, absent⟩ | ⟨fresh, present⟩
            · exact .inl ⟨.inl old, by simp [absent, Touch.apply]⟩
            · rw [present]
              by_cases late : expiry < now
              · exact .inl ⟨.inr late, by simp [Touch.apply, late]⟩
              · exact .inr ⟨fun either => either.elim fresh late, by simp [Touch.apply, late]⟩
          · intro never
            rw [gone never]
            rfl

theorem read_after (orderly : Orderly touches) (last : ∀ earlier ∈ touches, earlier.1 ≤ now) :
    (after touches).read now = some value ↔
      ∃ expiry, written touches = some (some (value, expiry)) ∧ now ≤ expiry := by
  obtain ⟨kept, gone⟩ := after_eq orderly
  constructor
  · intro alive
    by_cases never : ∀ entry, written touches ≠ some (some entry)
    · simp [gone never, read] at alive
    · push Not at never
      obtain ⟨⟨value', expiry⟩, same⟩ := never
      rcases kept value' expiry same with ⟨-, absent⟩ | ⟨-, present⟩
      · simp [absent, read] at alive
      · simp only [present, read, Option.filter_some, Option.map_eq_some_iff] at alive
        obtain ⟨entry, living, rfl⟩ := alive
        split at living
        · cases living
          rename_i inTime
          exact ⟨expiry, same, by simpa using inTime⟩
        · cases living
  · intro ⟨expiry, same, inTime⟩
    rcases kept value expiry same with ⟨⟨sweep, member, -, late⟩, -⟩ | ⟨-, present⟩
    · have := last sweep member
      omega
    · simp [present, read, inTime]

end Entry

end EmailServer
