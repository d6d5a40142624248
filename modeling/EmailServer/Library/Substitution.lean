import Mathlib.Data.List.Basic
import Mathlib.Data.List.Infix

/-! # Successive and simultaneous replacement

A table gives each key a value. One scan of a text replaces all keys at once, and never
looks at what it has put in. Replacing the keys one after another comes to the same if no
key begins in what the scan has read as something else.
-/

namespace EmailServer.Substitution

variable {α : Type} [DecidableEq α]

/-- A part of a text as a scan reads it. -/
inductive Piece (α : Type) where
  | plain (a : α)
  | key (entry : List α × List α)
  deriving DecidableEq

/-- The pieces of a text, whose first `skip` symbols still belong to the key before. -/
def scanFrom (table : List (List α × List α)) : Nat → List α → List (Piece α)
  | _, [] => []
  | skip + 1, _ :: rest => scanFrom table skip rest
  | 0, a :: rest =>
      match table.find? (·.1.isPrefixOf (a :: rest)) with
      | some entry => .key entry :: scanFrom table (entry.1.length - 1) rest
      | none => .plain a :: scanFrom table 0 rest

def pieces (table : List (List α × List α)) (text : List α) : List (Piece α) := scanFrom table 0 text

/-- A piece when the keys of these entries are replaced. -/
def shown (done : List (List α × List α)) : Piece α → List α
  | .plain a => [a]
  | .key entry => if entry ∈ done then entry.2 else entry.1

/-- The text with every key replaced. -/
def substitute (table : List (List α × List α)) (text : List α) : List α :=
  (pieces table text).flatMap (shown table)

/-- Where the others are replaced, the key of the entry begins in a piece only if it is the
    piece. -/
def OnlyRead (done : List (List α × List α)) (entry : List α × List α) : List (Piece α) → Prop
  | [] => True
  | p :: ps =>
      (p ≠ .key entry →
        ∀ z ∈ (shown done p).tails, z ≠ [] → ¬ entry.1 <+: z ++ ps.flatMap (shown done)) ∧
      OnlyRead done entry ps

/-- So it is for one key after another. -/
def EachOnlyRead (ps : List (Piece α)) (done : List (List α × List α)) :
    List (List α × List α) → Prop
  | [] => True
  | entry :: later => OnlyRead done entry ps ∧ EachOnlyRead ps (done ++ [entry]) later

instance decidableOnlyRead (done : List (List α × List α)) (entry : List α × List α) :
    (ps : List (Piece α)) → Decidable (OnlyRead done entry ps)
  | [] => .isTrue trivial
  | _ :: ps =>
      have := decidableOnlyRead done entry ps
      inferInstanceAs (Decidable (_ ∧ _))

instance decidableEachOnlyRead (ps : List (Piece α)) :
    (done later : List (List α × List α)) → Decidable (EachOnlyRead ps done later)
  | _, [] => .isTrue trivial
  | done, entry :: later =>
      have := decidableEachOnlyRead ps (done ++ [entry]) later
      inferInstanceAs (Decidable (_ ∧ _))

section Scanning

variable {table done : List (List α × List α)} {entry : List α × List α} {text rest : List α}
  {ps : List (Piece α)}

theorem scanFrom_skip (skipped rest : List α) :
    scanFrom table skipped.length (skipped ++ rest) = scanFrom table 0 rest := by
  induction skipped with
  | nil => rfl
  | cons a skipped ih => exact ih

theorem pieces_key (nonempty : entry.1 ≠ []) (first : table.find? (·.1.isPrefixOf (entry.1 ++ rest)) = some entry) :
    pieces table (entry.1 ++ rest) = .key entry :: pieces table rest := by
  obtain ⟨key, value⟩ := entry
  obtain ⟨a, key, rfl⟩ := List.exists_cons_of_ne_nil nonempty
  rw [List.cons_append] at first
  rw [List.cons_append, pieces, scanFrom, first]
  exact congrArg _ (scanFrom_skip key rest)

theorem pieces_plain {a : α} (none_ : table.find? (·.1.isPrefixOf (a :: rest)) = none) :
    pieces table (a :: rest) = .plain a :: pieces table rest := by
  rw [pieces, scanFrom, none_]
  rfl

/-- A text is read from its beginning to its end: induction over its pieces. -/
theorem scan_induction {motive : List α → Prop} (nonempty : ∀ entry ∈ table, entry.1 ≠ [])
    (nil : motive [])
    (key : ∀ entry rest, table.find? (·.1.isPrefixOf (entry.1 ++ rest)) = some entry →
      motive rest → motive (entry.1 ++ rest))
    (plain : ∀ a rest, table.find? (·.1.isPrefixOf (a :: rest)) = none → motive rest →
      motive (a :: rest))
    (text : List α) : motive text := by
  induction length : text.length using Nat.strong_induction_on generalizing text with
  | _ n ih =>
      cases text with
      | nil => exact nil
      | cons a rest =>
          cases first : table.find? (·.1.isPrefixOf (a :: rest)) with
          | none => exact plain a rest first (ih rest.length (by simp [← length]) rest rfl)
          | some entry =>
              have begins := List.find?_some first
              obtain ⟨more, whole⟩ := List.isPrefixOf_iff_prefix.mp begins
              have positive : 0 < entry.1.length :=
                List.length_pos_iff.mpr (nonempty entry (List.mem_of_find?_eq_some first))
              have total := congrArg List.length whole
              rw [List.length_append] at total
              rw [← whole] at first ⊢
              exact key entry more first (ih more.length (by omega) more rfl)

theorem pieces_text (nonempty : ∀ entry ∈ table, entry.1 ≠ []) :
    (pieces table text).flatMap (shown []) = text := by
  induction text using scan_induction nonempty with
  | nil => rfl
  | key entry rest first ih =>
      have there := List.mem_of_find?_eq_some first
      rw [pieces_key (nonempty entry there) first, List.flatMap_cons, ih]
      simp [shown]
  | plain a rest first ih =>
      rw [pieces_plain first, List.flatMap_cons, ih]
      rfl

/-! ## One key -/

theorem substitute_key (nonempty : entry.1 ≠ []) :
    substitute [entry] (entry.1 ++ rest) = entry.2 ++ substitute [entry] rest := by
  have first : [entry].find? (·.1.isPrefixOf (entry.1 ++ rest)) = some entry :=
    List.find?_cons_of_pos (List.isPrefixOf_iff_prefix.mpr (List.prefix_append entry.1 rest))
  rw [substitute, pieces_key nonempty first, List.flatMap_cons]
  simp [shown, substitute]

theorem substitute_past {w : List α}
    (clear : ∀ z ∈ w.tails, z ≠ [] → ¬ entry.1 <+: z ++ rest) :
    substitute [entry] (w ++ rest) = w ++ substitute [entry] rest := by
  induction w with
  | nil => rfl
  | cons a w ih =>
      simp only [List.tails_cons, List.mem_cons, forall_eq_or_imp] at clear
      have here : [entry].find? (·.1.isPrefixOf (a :: (w ++ rest))) = none := by
        have starts := clear.1 (List.cons_ne_nil a w)
        rw [← List.isPrefixOf_iff_prefix] at starts
        simpa using starts
      rw [List.cons_append, substitute, pieces_plain here, List.flatMap_cons]
      exact congrArg (a :: ·) (ih clear.2)

/-- Replacing the key replaces the pieces that are the key. -/
theorem substitute_shown (nonempty : entry.1 ≠ []) (fresh : entry ∉ done)
    (clear : OnlyRead done entry ps) :
    substitute [entry] (ps.flatMap (shown done)) = ps.flatMap (shown (done ++ [entry])) := by
  induction ps with
  | nil => rfl
  | cons p ps ih =>
      obtain ⟨here, later⟩ := clear
      rw [List.flatMap_cons, List.flatMap_cons]
      by_cases isKey : p = .key entry
      · have before : shown done p = entry.1 := by simp [isKey, shown, fresh]
        have after : shown (done ++ [entry]) p = entry.2 := by simp [isKey, shown]
        rw [before, after, substitute_key nonempty, ih later]
      · have same : shown (done ++ [entry]) p = shown done p := by
          cases p with
          | plain a => rfl
          | key other =>
              have different : other ≠ entry := fun equal => isKey (congrArg Piece.key equal)
              simp [shown, different]
        rw [same, substitute_past (here isKey), ih later]

/-! ## The table -/

theorem foldl_shown {later : List (List α × List α)} (nonempty : ∀ entry ∈ later, entry.1 ≠ [])
    (distinct : (done ++ later).Nodup) (clear : EachOnlyRead ps done later) :
    later.foldl (fun text entry => substitute [entry] text) (ps.flatMap (shown done)) =
      ps.flatMap (shown (done ++ later)) := by
  induction later generalizing done with
  | nil => rw [List.foldl_nil, List.append_nil]
  | cons entry later ih =>
      obtain ⟨here, next⟩ := clear
      obtain ⟨nonempty', nonempty⟩ := List.forall_mem_cons.mp nonempty
      have fresh : entry ∉ done := fun member =>
        (List.nodup_append.mp distinct).2.2 entry member entry List.mem_cons_self rfl
      have split : done ++ entry :: later = done ++ [entry] ++ later := by simp
      rw [split] at distinct ⊢
      rw [List.foldl_cons, substitute_shown nonempty' fresh here, ih nonempty distinct next]

/-- One key after another and all at once are the same, if each key begins only where the
    scan reads it. -/
theorem foldl_substitute (nonempty : ∀ entry ∈ table, entry.1 ≠ []) (distinct : table.Nodup)
    (clear : EachOnlyRead (pieces table text) [] table) :
    table.foldl (fun text entry => substitute [entry] text) text = substitute table text := by
  have passes := @foldl_shown _ _ [] _ table nonempty distinct clear
  rwa [pieces_text nonempty, List.nil_append] at passes

end Scanning

end EmailServer.Substitution
