import EmailServer.Library.Bytes

/-! # Searching in texts

`std::string::find`, `std::getline` and `std::tolower`. What `find` finds is given
as the rest of the text from there.
-/

namespace EmailServer.Bytes

def tab : UInt8 := 9
def equals : UInt8 := 61
def semicolon : UInt8 := 59
def crlf : Bytes := [cr, lf]

/-- `tolower` in the "C" locale. -/
def lowerByte (c : UInt8) : UInt8 := if 65 ≤ c && c ≤ 90 then c + 32 else c

def toLower (text : Bytes) : Bytes := text.map lowerByte

theorem lowerByte_other {c d : UInt8} (other : ¬ (97 ≤ d.toNat ∧ d.toNat ≤ 122))
    (lower : lowerByte c = d) : c = d := by
  unfold lowerByte at lower
  split at lower
  · rename_i upper
    simp only [Bool.and_eq_true, decide_eq_true_eq, UInt8.le_iff_toNat_le] at upper
    have first : 65 ≤ c.toNat := upper.1
    have last : c.toNat ≤ 90 := upper.2
    have value := congrArg UInt8.toNat lower
    rw [UInt8.toNat_add] at value
    change (c.toNat + 32) % 256 = d.toNat at value
    omega
  · exact lower

theorem lowerByte_lowered (c : UInt8) : lowerByte (lowerByte c) = lowerByte c := by
  by_cases upper : 65 ≤ c.toNat ∧ c.toNat ≤ 90
  · have lower : lowerByte c = c + 32 := if_pos (by
      simpa [UInt8.le_iff_toNat_le] using upper)
    rw [lower]
    refine if_neg ?_
    simp only [Bool.and_eq_true, decide_eq_true_eq, UInt8.le_iff_toNat_le, UInt8.toNat_add]
    change ¬ (65 ≤ (c.toNat + 32) % 256 ∧ (c.toNat + 32) % 256 ≤ 90)
    omega
  · have same : lowerByte c = c := if_neg (by
      simpa [UInt8.le_iff_toNat_le] using upper)
    rw [same, same]

/-- The text from the first occurrence of `word`. -/
def find (word : Bytes) : Bytes → Option Bytes
  | [] => if word.isEmpty then some [] else none
  | c :: rest => if word.isPrefixOf (c :: rest) then some (c :: rest) else find word rest

/-- The text before the first occurrence of `word`, all of it if there is none. -/
def upTo (word : Bytes) : Bytes → Bytes
  | [] => []
  | c :: rest => if word.isPrefixOf (c :: rest) then [] else c :: upTo word rest

/-- The pieces that `std::getline` reads: after a last separator there is none. -/
def getlines (sep : UInt8) (text : Bytes) : List Bytes :=
  let pieces := splitOn (· == sep) text
  if pieces.getLast? = some [] then pieces.dropLast else pieces

section Pieces

variable {sep : UInt8 → Bool} {text piece : Bytes}

theorem splitOn_clean (member : piece ∈ splitOn sep text) : ∀ c ∈ piece, sep c = false := by
  induction text generalizing piece with
  | nil =>
      obtain rfl := List.mem_singleton.mp member
      simp
  | cons c rest ih =>
      rw [splitOn] at member
      split at member
      · rcases List.mem_cons.mp member with rfl | later
        · simp
        · exact ih later
      · rename_i plain
        split at member
        · obtain rfl := List.mem_singleton.mp member
          simpa using plain
        · rename_i first pieces split
          rcases List.mem_cons.mp member with rfl | later
          · intro d inside
            rcases List.mem_cons.mp inside with rfl | deeper
            · simpa using plain
            · exact ih (split ▸ List.mem_cons_self) d deeper
          · exact ih (split ▸ List.mem_cons_of_mem _ later)

theorem splitOn_within (member : piece ∈ splitOn sep text) : piece ⊆ text := by
  induction text generalizing piece with
  | nil =>
      obtain rfl := List.mem_singleton.mp member
      exact List.nil_subset _
  | cons c rest ih =>
      rw [splitOn] at member
      split at member
      · rcases List.mem_cons.mp member with rfl | later
        · exact List.nil_subset _
        · exact List.Subset.trans (ih later) (List.subset_cons_self c rest)
      split at member
      · obtain rfl := List.mem_singleton.mp member
        simp
      · rename_i first pieces split
        rcases List.mem_cons.mp member with rfl | later
        · exact List.cons_subset_cons c (ih (split ▸ List.mem_cons_self))
        · exact List.Subset.trans (ih (split ▸ List.mem_cons_of_mem _ later)) (List.subset_cons_self c rest)

theorem getlines_within {sep : UInt8} (member : piece ∈ getlines sep text) : piece ⊆ text := by
  simp only [getlines] at member
  split at member
  · exact splitOn_within (List.dropLast_subset _ member)
  · exact splitOn_within member

theorem getlines_clean {sep : UInt8} (member : piece ∈ getlines sep text) : sep ∉ piece := by
  have clean : ∀ piece ∈ splitOn (· == sep) text, sep ∉ piece := by
    intro piece member inside
    simpa using splitOn_clean member sep inside
  simp only [getlines] at member
  split at member
  · exact clean piece (List.dropLast_subset _ member)
  · exact clean piece member

theorem splitOn_append {sep : UInt8 → Bool} {c : UInt8} (clean : ∀ d ∈ piece, sep d = false)
    (separates : sep c = true) (rest : Bytes) :
    splitOn sep (piece ++ c :: rest) = piece :: splitOn sep rest := by
  induction piece with
  | nil => simp [splitOn, separates]
  | cons d piece ih =>
      have plain : sep d = false := clean d List.mem_cons_self
      rw [List.cons_append, splitOn, ih fun e inside => clean e (List.mem_cons_of_mem d inside)]
      simp [plain]

theorem splitOn_ne_nil (sep : UInt8 → Bool) (text : Bytes) : splitOn sep text ≠ [] := by
  cases text with
  | nil => exact List.cons_ne_nil _ _
  | cons c text =>
      rw [splitOn]
      split
      · exact List.cons_ne_nil _ _
      · split <;> exact List.cons_ne_nil _ _

theorem getlines_prefix {sep : UInt8} {first pieces : List Bytes} (nonempty : pieces ≠ [])
    (split : splitOn (· == sep) text = first ++ pieces) :
    ∃ more, getlines sep text = first ++ more := by
  rw [getlines, split]
  split
  · exact ⟨_, List.dropLast_append_of_ne_nil nonempty⟩
  · exact ⟨_, rfl⟩

theorem getlines_join {sep : UInt8} {lines : List Bytes} (clean : ∀ line ∈ lines, sep ∉ line) :
    getlines sep (lines.flatMap (· ++ [sep])) = lines := by
  have pieces : splitOn (· == sep) (lines.flatMap (· ++ [sep])) = lines ++ [[]] := by
    induction lines with
    | nil => rfl
    | cons line lines ih =>
        have plain : ∀ d ∈ line, (d == sep) = false := fun d inside => by
          have other : d ≠ sep := fun same => clean line List.mem_cons_self (same ▸ inside)
          simpa using other
        rw [List.flatMap_cons, List.append_assoc, List.singleton_append,
          splitOn_append plain (by simp), ih fun l there => clean l (List.mem_cons_of_mem line there),
          List.cons_append]
  simp [getlines, pieces]

end Pieces

/-- The words that `std::istringstream >> word` reads one after another. -/
def words (text : Bytes) : List Bytes := (splitOn isSpace text).filter (· ≠ [])

/-- A word as such a stream reads it. -/
def IsWord (word : Bytes) : Prop := word ≠ [] ∧ ∀ c ∈ word, isSpace c = false

instance (word : Bytes) : Decidable (IsWord word) :=
  decidable_of_iff (!word.isEmpty && word.all fun c => !isSpace c) (by simp [IsWord])

theorem IsWord.append {word text : Bytes} (isWord : IsWord word)
    (plain : ∀ c ∈ text, isSpace c = false) : IsWord (word ++ text) := by
  refine ⟨?_, List.forall_mem_append.mpr ⟨isWord.2, plain⟩⟩
  simp [isWord.1]

theorem words_isWord {text word : Bytes} (member : word ∈ words text) : IsWord word := by
  obtain ⟨piece, nonempty⟩ := List.mem_filter.mp member
  exact ⟨by simpa using nonempty, splitOn_clean piece⟩

theorem words_within {text word : Bytes} (member : word ∈ words text) : word ⊆ text :=
  splitOn_within (List.mem_filter.mp member).1

theorem words_blank {gap : Bytes} (blank : ∀ c ∈ gap, isSpace c = true) (text : Bytes) :
    words (gap ++ text) = words text := by
  induction gap with
  | nil => rfl
  | cons c gap ih =>
      obtain ⟨here, later⟩ := List.forall_mem_cons.mp blank
      have skipped := ih later
      rw [words] at skipped
      rw [List.cons_append, words, splitOn, if_pos here, List.filter_cons_of_neg (by simp), skipped]

theorem words_cons {word gap : Bytes} (isWord : IsWord word) (nonempty : gap ≠ [])
    (blank : ∀ c ∈ gap, isSpace c = true) (text : Bytes) :
    words (word ++ (gap ++ text)) = word :: words text := by
  obtain ⟨c, gap, rfl⟩ := List.exists_cons_of_ne_nil nonempty
  obtain ⟨here, later⟩ := List.forall_mem_cons.mp blank
  have rest := words_blank later text
  rw [words] at rest
  rw [List.cons_append, words, splitOn_append isWord.2 here,
    List.filter_cons_of_pos (by simpa using isWord.1), rest]

theorem words_last {word gap : Bytes} (isWord : IsWord word) (blank : ∀ c ∈ gap, isSpace c = true) :
    words (word ++ gap) = [word] := by
  cases gap with
  | nil => simp [words, splitOn_whole isWord.2, isWord.1]
  | cons c gap =>
      have ended := words_cons isWord (List.cons_ne_nil c gap) blank []
      rw [List.append_nil] at ended
      rw [ended]
      rfl

theorem words_gaps {first trailing : Bytes} {rest : List (Bytes × Bytes)} (isWord : IsWord first)
    (areWords : ∀ p ∈ rest, p.1 ≠ [] ∧ (∀ c ∈ p.1, isSpace c = true) ∧ IsWord p.2)
    (blank : ∀ c ∈ trailing, isSpace c = true) :
    words (first ++ (rest.flatMap (fun p => p.1 ++ p.2) ++ trailing)) = first :: rest.map Prod.snd := by
  induction rest generalizing first with
  | nil => exact words_last isWord blank
  | cons second rest ih =>
      obtain ⟨⟨nonempty, gap, isWord'⟩, later⟩ := List.forall_mem_cons.mp areWords
      rw [List.flatMap_cons, List.append_assoc, List.append_assoc, words_cons isWord nonempty gap,
        ih isWord' later, List.map_cons]

theorem words_join {first : Bytes} {rest : List Bytes} (isWord : IsWord first)
    (areWords : ∀ word ∈ rest, IsWord word) :
    words (first ++ rest.flatMap (space :: ·)) = first :: rest := by
  have spaced := @words_gaps first [] (rest.map fun word => ([space], word)) isWord
    (by simpa [space, isSpace] using areWords) (by simp)
  simpa [List.flatMap_map, Function.comp_def] using spaced

section Finding

variable {word text before after rest : Bytes} {c : UInt8}

theorem prefix_before (stops : c ∉ word) (starts : word <+: before ++ c :: after) :
    word <+: before := by
  have upToByte : before ++ [c] <+: before ++ c :: after := ⟨after, by simp⟩
  rcases List.prefix_or_prefix_of_prefix starts upToByte with shorter | longer
  · rcases List.prefix_concat_iff.mp shorter with rfl | within
    · simp at stops
    · exact within
  · exact absurd (longer.subset (by simp)) stops

theorem find_append (absent : find word before = none) (stops : c ∉ word) :
    find word (before ++ c :: after) = find word (c :: after) := by
  induction before with
  | nil => rfl
  | cons d before ih =>
      rw [find] at absent
      split at absent
      · cases absent
      · rename_i starts
        have later : ¬ word.isPrefixOf (d :: (before ++ c :: after)) := by
          intro reaches
          exact starts (List.isPrefixOf_iff_prefix.mpr
            (prefix_before stops (List.isPrefixOf_iff_prefix.mp reaches)))
        rw [List.cons_append, find, if_neg later]
        exact ih absent

theorem find_skip (clean : c ∉ before) : find (c :: word) (before ++ rest) = find (c :: word) rest := by
  induction before with
  | nil => rfl
  | cons d before ih =>
      obtain ⟨other, clean⟩ := List.ne_and_not_mem_of_not_mem_cons clean
      have starts : ¬ (c :: word).isPrefixOf (d :: (before ++ rest)) := by
        simp [List.isPrefixOf, other]
      rw [List.cons_append, find, if_neg starts]
      exact ih clean

theorem find_suffix {hit : Bytes} (found : find word text = some hit) :
    word <+: hit ∧ hit <:+ text := by
  induction text with
  | nil =>
      rw [find] at found
      split at found
      · rename_i empty
        cases found
        rw [List.isEmpty_iff.mp empty]
        exact ⟨List.nil_prefix, List.suffix_rfl⟩
      · cases found
  | cons d text ih =>
      rw [find] at found
      split at found
      · rename_i starts
        cases found
        exact ⟨List.isPrefixOf_iff_prefix.mp starts, List.suffix_rfl⟩
      · obtain ⟨starts, ends⟩ := ih found
        exact ⟨starts, ends.trans (List.suffix_cons d text)⟩

theorem find_isSome_iff : (find word text).isSome ↔ word <:+: text := by
  induction text with
  | nil =>
      rw [find, List.infix_nil]
      cases word <;> simp
  | cons d text ih =>
      rw [find, List.infix_cons_iff, ← ih]
      by_cases starts : word.isPrefixOf (d :: text) = true
      · simp [starts, List.isPrefixOf_iff_prefix.mp starts]
      · have other : ¬ word <+: d :: text := fun reaches => starts (List.isPrefixOf_iff_prefix.mpr reaches)
        simp [starts, other]

theorem find_eq_none_iff : find word text = none ↔ ¬ word <:+: text := by
  rw [← Option.not_isSome_iff_eq_none, find_isSome_iff]

theorem find_extend {hit : Bytes} (found : find word before = some hit) (rest : Bytes) :
    find word (before ++ rest) = some (hit ++ rest) := by
  induction before with
  | nil =>
      obtain ⟨rfl, rfl⟩ : word = [] ∧ hit = [] := by
        cases word with
        | nil => exact ⟨rfl, (Option.some.inj found).symm⟩
        | cons => cases found
      cases rest <;> rfl
  | cons d before ih =>
      rw [find] at found
      rw [List.cons_append, find]
      split at found
      · rename_i starts
        have longer : word.isPrefixOf (d :: (before ++ rest)) = true :=
          List.isPrefixOf_iff_prefix.mpr
            ((List.isPrefixOf_iff_prefix.mp starts).trans (List.prefix_append (d :: before) rest))
        rw [if_pos longer, ← Option.some.inj found]
        rfl
      · rename_i starts
        -- the word is shorter than what follows, so it cannot reach into `rest`
        obtain ⟨reaches, ends⟩ := find_suffix found
        have short : word.length ≤ (d :: before).length :=
          (reaches.length_le.trans ends.length_le).trans (Nat.le_succ _)
        have later : ¬ word.isPrefixOf (d :: (before ++ rest)) = true := by
          intro longer
          exact starts (List.isPrefixOf_iff_prefix.mpr (List.prefix_of_prefix_length_le
            (List.isPrefixOf_iff_prefix.mp longer) (List.prefix_append (d :: before) rest) short))
        rw [if_neg later]
        exact ih found

theorem find_start (word rest : Bytes) : find word (word ++ rest) = some (word ++ rest) := by
  cases word with
  | nil => cases rest <;> rfl
  | cons d word =>
      have starts : (d :: word).isPrefixOf (d :: (word ++ rest)) = true :=
        List.isPrefixOf_iff_prefix.mpr (List.prefix_append (d :: word) rest)
      rw [List.cons_append, find, if_pos starts]

theorem find_absent (within : c ∈ word) (clean : c ∉ text) : find word text = none := by
  cases found : find word text with
  | none => rfl
  | some hit =>
      obtain ⟨starts, ends⟩ := find_suffix found
      exact absurd (ends.subset (starts.subset within)) clean

theorem find_short (shorter : text.length < word.length) : find word text = none := by
  cases found : find word text with
  | none => rfl
  | some hit =>
      obtain ⟨starts, ends⟩ := find_suffix found
      have bound := starts.length_le.trans ends.length_le
      omega

theorem find_longer (absent : find word text = none) (more : Bytes) :
    find (word ++ more) text = none := by
  induction text with
  | nil =>
      rw [find] at absent ⊢
      split at absent
      · cases absent
      · rename_i nonempty
        rw [if_neg]
        cases word with
        | nil => exact absurd rfl nonempty
        | cons d word => exact Bool.false_ne_true
  | cons d text ih =>
      rw [find] at absent
      split at absent
      · cases absent
      · rename_i starts
        have longer : ¬ (word ++ more).isPrefixOf (d :: text) = true := by
          intro reaches
          exact starts (List.isPrefixOf_iff_prefix.mpr
            ((List.prefix_append word more).trans (List.isPrefixOf_iff_prefix.mp reaches)))
        rw [find, if_neg longer]
        exact ih absent

theorem find_past (absent : find word before = none) (stops : c ∉ word) (after : Bytes) :
    find word (before ++ c :: after) = find word after := by
  rw [find_append absent stops]
  cases word with
  | nil => cases before <;> cases absent
  | cons d word =>
      obtain ⟨other, -⟩ := List.ne_and_not_mem_of_not_mem_cons stops
      have skipped : find (d :: word) ([c] ++ after) = find (d :: word) after :=
        find_skip (by simpa using Ne.symm other)
      exact skipped

theorem upTo_whole (absent : find word text = none) : upTo word text = text := by
  induction text with
  | nil => rfl
  | cons d text ih =>
      rw [find] at absent
      split at absent
      · cases absent
      · rename_i starts
        rw [upTo, if_neg starts, ih absent]

theorem upTo_rest {hit : Bytes} (found : find word text = some hit) :
    upTo word text ++ hit = text := by
  induction text with
  | nil =>
      rw [find] at found
      split at found
      · cases found
        rfl
      · cases found
  | cons d text ih =>
      rw [find] at found
      split at found
      · rename_i starts
        rw [upTo, if_pos starts, List.nil_append, Option.some.inj found]
      · rename_i starts
        rw [upTo, if_neg starts, List.cons_append, ih found]

theorem upTo_found {piece : Bytes} (found : find word (piece ++ word ++ rest) = some (word ++ rest)) :
    upTo word (piece ++ word ++ rest) = piece := by
  have whole := upTo_rest found
  rw [List.append_assoc piece] at whole ⊢
  exact List.append_cancel_right whole

theorem length_erase_lt {hit : Bytes} (nonempty : word ≠ []) (found : find word text = some hit) :
    (upTo word text ++ hit.drop word.length).length < text.length := by
  have positive := List.length_pos_iff.mpr nonempty
  have long := (find_suffix found).1.length_le
  have whole := congrArg List.length (upTo_rest found)
  rw [List.length_append] at whole
  rw [List.length_append, List.length_drop]
  omega

theorem upTo_clean (nonempty : word ≠ []) (text : Bytes) : find word (upTo word text) = none := by
  cases found : find word text with
  | none => rw [upTo_whole found, found]
  | some hit =>
      cases again : find word (upTo word text) with
      | none => rfl
      | some early =>
          have sooner := find_extend again hit
          rw [upTo_rest found, found] at sooner
          have nothing : early = [] := List.self_eq_append_left.mp (Option.some.inj sooner)
          have starts := (find_suffix again).1
          rw [nothing] at starts
          exact absurd (List.prefix_nil.mp starts) nonempty

theorem find_leftmost {hit : Bytes} (found : find word text = some hit) {n : Nat}
    (before : n < (upTo word text).length) : ¬ word <+: text.drop n := by
  induction text generalizing n with
  | nil => cases before
  | cons d text ih =>
      rw [find] at found
      rw [upTo] at before
      split at found
      · rename_i starts
        rw [if_pos starts] at before
        cases before
      · rename_i starts
        rw [if_neg starts] at before
        cases n with
        | zero => exact fun reaches => starts (List.isPrefixOf_iff_prefix.mpr reaches)
        | succ n => exact ih found (Nat.lt_of_succ_lt_succ before)

theorem upTo_append (absent : find word before = none) (stops : c ∉ word) :
    upTo word (before ++ c :: after) = before ++ upTo word (c :: after) := by
  have same := @find_append word before after c absent stops
  cases found : find word (c :: after) with
  | none =>
      rw [upTo_whole found]
      exact upTo_whole (same.trans found)
  | some hit =>
      have whole : upTo word (before ++ c :: after) ++ hit = before ++ upTo word (c :: after) ++ hit := by
        rw [upTo_rest (same.trans found), List.append_assoc, upTo_rest found]
      exact List.append_cancel_right whole

theorem find_pair {t e : UInt8} (clean : e ∉ before) (first : rest.head? ≠ some e) :
    find [t, e] (before ++ rest) = find [t, e] rest := by
  induction before with
  | nil => rfl
  | cons d before ih =>
      obtain ⟨_, clean⟩ := List.ne_and_not_mem_of_not_mem_cons clean
      have starts : ¬ [t, e].isPrefixOf (d :: (before ++ rest)) := by
        intro starts
        obtain ⟨more, pair⟩ := List.isPrefixOf_iff_prefix.mp starts
        obtain ⟨_, second⟩ := List.cons.inj pair
        cases before with
        | nil => exact first (by rw [List.nil_append] at second; rw [← second]; rfl)
        | cons x before => exact clean (by simp [(List.cons.inj second).1])
      rw [List.cons_append, find, if_neg starts]
      exact ih clean

/-- A word with a mark behind it is found first at the first mark, if the word is what ends
    there, and otherwise behind that mark. -/
theorem find_marked (unmarked : c ∉ word) (clean : c ∉ before) (after : Bytes) :
    find (word ++ [c]) (before ++ c :: after) =
      if word <:+ before then some (word ++ c :: after) else find (word ++ [c]) after := by
  induction before with
  | nil =>
      rw [List.nil_append, find]
      cases word with
      | nil => simp
      | cons d word =>
          obtain ⟨other, -⟩ := List.ne_and_not_mem_of_not_mem_cons unmarked
          simp [List.isPrefixOf, Ne.symm other]
  | cons d before ih =>
      obtain ⟨-, clean'⟩ := List.ne_and_not_mem_of_not_mem_cons clean
      have starts : word ++ [c] <+: d :: (before ++ c :: after) ↔ word = d :: before := by
        constructor
        · intro ⟨rest, same⟩
          rw [List.append_assoc, List.singleton_append] at same
          have left := cut_append unmarked rest
          rw [same, ← List.cons_append, cut_append clean after] at left
          exact (Prod.mk.inj (Option.some.inj left)).1.symm
        · rintro rfl
          exact ⟨after, by simp⟩
      rw [List.cons_append, find]
      by_cases whole : word = d :: before
      · rw [if_pos (List.isPrefixOf_iff_prefix.mpr (starts.mpr whole)), whole,
          if_pos List.suffix_rfl, List.cons_append]
      · have later : ¬ (word ++ [c]).isPrefixOf (d :: (before ++ c :: after)) := fun reaches =>
          whole (starts.mp (List.isPrefixOf_iff_prefix.mp reaches))
        rw [if_neg later, ih clean']
        simp [List.suffix_cons_iff, whole]

/-- A word that ends with a byte of its own does not overlap itself, so it is found where it stands
    if it has not been found before. -/
theorem find_ending (unmarked : c ∉ word) (absent : find (word ++ [c]) before = none)
    (after : Bytes) :
    find (word ++ [c]) (before ++ (word ++ [c] ++ after)) = some (word ++ [c] ++ after) := by
  induction before with
  | nil => exact find_start _ _
  | cons d before ih =>
      rw [find] at absent
      split at absent
      · cases absent
      rename_i starts
      have later : ¬ (word ++ [c]).isPrefixOf (d :: (before ++ (word ++ [c] ++ after))) := by
        intro reaches
        obtain ⟨rest, same⟩ := List.isPrefixOf_iff_prefix.mp reaches
        rw [← List.cons_append] at same
        rcases List.append_eq_append_iff.mp same with ⟨more, whole, -⟩ | ⟨more, whole, behind⟩
        · exact starts (List.isPrefixOf_iff_prefix.mpr ⟨more, whole.symm⟩)
        -- the text before ends inside the word, so what is left of it begins the word again
        rcases List.eq_nil_or_concat more with rfl | ⟨shorter, b, rfl⟩
        · exact starts (List.isPrefixOf_iff_prefix.mpr ⟨[], by simpa using whole⟩)
        · rw [List.concat_eq_append] at whole behind
          rw [← List.append_assoc] at whole
          obtain ⟨isWord, ended⟩ := List.append_inj' whole rfl
          obtain rfl := List.singleton_inj.mp ended
          have begins : shorter ++ [c] <+: word := by
            refine List.prefix_of_prefix_length_le ⟨rest, behind.symm⟩
              ((List.prefix_append word [c]).trans (List.prefix_append _ after)) ?_
            rw [isWord]
            simp
          exact unmarked (begins.subset (by simp))
      rw [List.cons_append, find, if_neg later]
      exact ih absent

theorem upTo_crlf (clean : cr ∉ before) : upTo crlf (before ++ crlf ++ after) = before := by
  refine upTo_found ?_
  rw [List.append_assoc]
  exact (find_skip clean).trans (find_start crlf after)

end Finding

/-! ## Cutting at a word -/

/-- Cut at the successive occurrences of `word`; the first `skip` bytes still belong
    to the occurrence before. -/
def cutAfter (word : Bytes) : Nat → Bytes → List Bytes
  | _, [] => [[]]
  | skip + 1, _ :: rest => cutAfter word skip rest
  | 0, c :: rest =>
      if word.isPrefixOf (c :: rest) then [] :: cutAfter word (word.length - 1) rest
      else match cutAfter word 0 rest with
        | [] => [[c]]
        | piece :: pieces => (c :: piece) :: pieces

/-- The pieces before, between and behind the occurrences of `word`. -/
def cutAtWord (word text : Bytes) : List Bytes := cutAfter word 0 text

section Cutting

variable {word text piece rest : Bytes}

theorem cutAfter_skip (skipped rest : Bytes) :
    cutAfter word skipped.length (skipped ++ rest) = cutAfter word 0 rest := by
  induction skipped with
  | nil => rfl
  | cons c skipped ih => exact ih

theorem cutAtWord_whole (absent : find word text = none) :
    cutAtWord word text = [text] := by
  induction text with
  | nil => rfl
  | cons c text ih =>
      rw [find] at absent
      split at absent
      · cases absent
      · rename_i starts
        simp only [cutAtWord] at ih
        rw [cutAtWord, cutAfter, if_neg starts, ih absent]

theorem cutAtWord_found (nonempty : word ≠ [])
    (found : find word (piece ++ word ++ rest) = some (word ++ rest)) :
    cutAtWord word (piece ++ word ++ rest) = piece :: cutAtWord word rest := by
  obtain ⟨first, later, rfl⟩ := List.exists_cons_of_ne_nil nonempty
  induction piece with
  | nil =>
      have starts : (first :: later).isPrefixOf (first :: (later ++ rest)) = true :=
        List.isPrefixOf_iff_prefix.mpr (List.prefix_append (first :: later) rest)
      rw [List.nil_append, List.cons_append, cutAtWord, cutAfter, if_pos starts]
      exact congrArg _ (cutAfter_skip later rest)
  | cons c piece ih =>
      rw [List.cons_append, List.cons_append, find] at found
      split at found
      · -- the word would be found a byte too early
        have longer := congrArg List.length (Option.some.inj found)
        simp only [List.length_cons, List.length_append] at longer
        omega
      · rename_i starts
        have tail := ih found
        simp only [cutAtWord] at tail
        rw [List.cons_append, List.cons_append, cutAtWord, cutAfter, if_neg starts, tail]
        rfl

end Cutting

/-! ## Lines ended by CRLF -/

/-- The lines, each with its end. -/
def crlfLines (lines : List Bytes) : Bytes := lines.flatMap (· ++ crlf)

section Lines

variable {line rest : Bytes} {lines : List Bytes}

theorem crlfLines_join (line : Bytes) (lines : List Bytes) :
    crlfLines (line :: lines) = crlf.intercalate (line :: lines) ++ crlf := by
  induction lines generalizing line with
  | nil => simp [crlfLines, List.intercalate]
  | cons next lines ih =>
      have tail := ih next
      simp only [crlfLines, List.flatMap_cons] at tail ⊢
      rw [tail, List.intercalate_cons_cons]
      simp only [List.append_assoc]

theorem getlines_crlfLines (clean : ∀ l ∈ lines, lf ∉ l) :
    getlines lf (crlfLines lines) = lines.map (· ++ [cr]) := by
  have join := @getlines_join lf (lines.map (· ++ [cr])) fun l member => by
    obtain ⟨l, inLines, rfl⟩ := List.mem_map.mp member
    have other : lf ≠ cr := by decide
    simpa [other] using clean l inLines
  rw [← join, List.flatMap_map]
  simp [crlfLines, crlf]

theorem cutAtWord_join (clean : ∀ l ∈ line :: lines, cr ∉ l) :
    cutAtWord crlf (crlf.intercalate (line :: lines)) = line :: lines := by
  induction lines generalizing line with
  | nil =>
      have absent : find crlf line = none := by
        have nothing : find crlf (line ++ []) = none :=
          (find_skip (clean line List.mem_cons_self)).trans rfl
        simpa using nothing
      simpa [List.intercalate] using cutAtWord_whole absent
  | cons next lines ih =>
      have found : find crlf (line ++ crlf ++ crlf.intercalate (next :: lines)) =
          some (crlf ++ crlf.intercalate (next :: lines)) := by
        rw [List.append_assoc]
        exact (find_skip (clean line List.mem_cons_self)).trans (find_start crlf _)
      rw [List.intercalate_cons_cons, cutAtWord_found (by decide) found,
        ih fun l there => clean l (List.mem_cons_of_mem line there)]

theorem find_emptyLine (clean : ∀ l ∈ line :: lines, cr ∉ l) (nonempty : ∀ l ∈ lines, l ≠ []) :
    find (crlf ++ crlf) (crlf.intercalate (line :: lines) ++ (crlf ++ crlf) ++ rest) =
      some (crlf ++ crlf ++ rest) := by
  induction lines generalizing line with
  | nil =>
      simp only [List.intercalate, List.intersperse_singleton, List.flatten_singleton, List.append_assoc]
      exact (find_skip (clean line List.mem_cons_self)).trans
        (by simp [crlf, find, List.isPrefixOf])
  | cons next lines ih =>
      have later := @ih next (fun l there => clean l (List.mem_cons_of_mem line there))
        fun l there => nonempty l (List.mem_cons_of_mem next there)
      obtain ⟨first, tail, rfl⟩ := List.exists_cons_of_ne_nil (nonempty next List.mem_cons_self)
      have other : (13 : UInt8) ≠ first :=
        (List.ne_and_not_mem_of_not_mem_cons (clean _ (by simp : first :: tail ∈ _))).1
      -- behind the end of `line` comes neither CR nor the end of the text
      have join : ∃ more, crlf.intercalate ((first :: tail) :: lines) = first :: more := by
        cases lines with
        | nil => exact ⟨tail, by simp [List.intercalate]⟩
        | cons => exact ⟨_, by rw [List.intercalate_cons_cons]; rfl⟩
      obtain ⟨more, join⟩ := join
      rw [join] at later
      rw [List.intercalate_cons_cons, join]
      simp only [List.append_assoc] at later ⊢
      refine (find_skip (clean line List.mem_cons_self)).trans ?_
      simpa [crlf, find, List.isPrefixOf, other, cr, lf] using later

end Lines

end EmailServer.Bytes
