import EmailServer.Policy.AttachmentPolicy

/-! # Double extensions

The test looks for the last dot of a name and for the dot before it, and takes what stands
between them. Where the last dot is the first byte, the position before it is the largest
number there is: the search starts over at the end, finds the same dot again, and what is
taken is all that stands behind it.
-/

namespace EmailServer.Policy

open EmailServer.Bytes AttachmentPolicy

/-! ## The search, with the positions of the source -/

/-- `std::string::npos` -/
def npos : Nat := 2 ^ 64 - 1

/-- From a position down to the first one. -/
def findDown (c : UInt8) (text : Bytes) : Nat → Option Nat
  | 0 => if text[0]? = some c then some 0 else none
  | i + 1 => if text[i + 1]? = some c then some (i + 1) else findDown c text i

/-- `text.find_last_of(c, pos)` -/
def findLastOf (c : UInt8) (text : Bytes) (pos : Nat) : Option Nat :=
  if text = [] then none else findDown c text (min (text.length - 1) pos)

/-- `hasDoubleExtension` on a name in small letters. Differences are those of `size_t`. -/
def doubleExtensionAt (f : Bytes) : Bool :=
  match findLastOf dot f npos with
  | none => false
  | some last =>
      match findLastOf dot f ((last + 2 ^ 64 - 1) % 2 ^ 64) with
      | none => false
      | some prev => isDocument ((f.drop (prev + 1)).take ((last + 2 ^ 64 - prev - 1) % 2 ^ 64))

section Positions

variable {c : UInt8} {text before after : Bytes} {pos : Nat}

theorem findDown_congr {text' : Bytes} (same : ∀ j ≤ pos, text[j]? = text'[j]?) :
    findDown c text pos = findDown c text' pos := by
  induction pos with
  | zero => rw [findDown, findDown, same 0 (Nat.le_refl 0)]
  | succ pos ih =>
      rw [findDown, findDown, same (pos + 1) (Nat.le_refl _), ih fun j below => same j (by omega)]

theorem findDown_clean (clean : c ∉ text) : findDown c text pos = none := by
  have other : ∀ j, text[j]? ≠ some c := fun j there => clean (List.mem_of_getElem? there)
  induction pos with
  | zero => rw [findDown, if_neg (other 0)]
  | succ pos ih => rw [findDown, if_neg (other _), ih]

theorem findDown_append (clean : c ∉ after) (k : Nat) :
    findDown c (before ++ c :: after) (before.length + k) = some before.length := by
  induction k with
  | zero =>
      have here : (before ++ c :: after)[before.length]? = some c := by simp
      cases position : before.length with
      | zero =>
          rw [position] at here
          rw [Nat.add_zero, findDown, if_pos here]
      | succ pos =>
          rw [position] at here
          rw [Nat.add_zero, findDown, if_pos here]
  | succ k ih =>
      have behind : (before ++ c :: after)[before.length + k + 1]? = after[k]? := by
        rw [Nat.add_assoc, List.getElem?_append_right (by omega), Nat.add_sub_cancel_left,
          List.getElem?_cons_succ]
      have other : after[k]? ≠ some c := fun there => clean (List.mem_of_getElem? there)
      rw [← Nat.add_assoc, findDown, behind, if_neg other, ih]

theorem findLastOf_clean (clean : c ∉ text) : findLastOf c text pos = none := by
  rw [findLastOf, findDown_clean clean, ite_self]

theorem findLastOf_append (clean : c ∉ after) (reaches : before.length ≤ pos) :
    findLastOf c (before ++ c :: after) pos = some before.length := by
  obtain ⟨k, start⟩ : ∃ k, min ((before ++ c :: after).length - 1) pos = before.length + k := by
    apply Nat.exists_eq_add_of_le
    rw [List.length_append, List.length_cons]
    omega
  rw [findLastOf, if_neg (by simp), start, findDown_append clean]

theorem findLastOf_before (nonempty : before ≠ []) (fits : before.length ≤ npos) (rest : Bytes) :
    findLastOf c (before ++ rest) (before.length - 1) = findLastOf c before npos := by
  have positive := List.length_pos_iff.mpr nonempty
  have whole : min ((before ++ rest).length - 1) (before.length - 1) = before.length - 1 := by
    rw [List.length_append]
    omega
  have start : min (before.length - 1) npos = before.length - 1 := by omega
  rw [findLastOf, if_neg (by simp [nonempty]), findLastOf, if_neg nonempty, whole, start]
  exact findDown_congr fun j below => List.getElem?_append_left (by omega)

end Positions

section LastDot

variable {text before after : Bytes}

theorem lastDot_none : lastDot text = none ↔ dot ∉ text := by
  rw [lastDot, Option.map_eq_none_iff, cut]
  simp

theorem lastDot_append (clean : dot ∉ after) : lastDot (before ++ dot :: after) = some (before, after) := by
  have flipped : (before ++ dot :: after).reverse = after.reverse ++ dot :: before.reverse := by simp
  rw [lastDot, flipped, cut_append (by simpa using clean)]
  simp

theorem lastDot_some (found : lastDot text = some (before, after)) :
    text = before ++ dot :: after ∧ dot ∉ after := by
  obtain ⟨⟨behind, front⟩, parts, same⟩ := Option.map_eq_some_iff.mp found
  obtain ⟨rfl, rfl⟩ := Prod.mk.inj same
  have clean := cut_clean parts
  refine ⟨?_, by simpa using clean⟩
  rw [← List.reverse_reverse text, cut_eq parts]
  simp

end LastDot

/-! ## The four kinds of names -/

theorem dots_cases (f : Bytes) : dot ∉ f ∨ (∃ ext, f = dot :: ext ∧ dot ∉ ext) ∨
    (∃ before after, f = before ++ dot :: after ∧ before ≠ [] ∧ dot ∉ before ∧ dot ∉ after) ∨
    ∃ front inner last, f = front ++ dot :: inner ++ dot :: last ∧ dot ∉ inner ∧ dot ∉ last := by
  cases found : lastDot f with
  | none => exact .inl (lastDot_none.mp found)
  | some parts =>
      obtain ⟨before, after⟩ := parts
      obtain ⟨rfl, clean⟩ := lastDot_some found
      by_cases start : before = []
      · exact .inr (.inl ⟨after, by rw [start, List.nil_append], clean⟩)
      cases second : lastDot before with
      | none => exact .inr (.inr (.inl ⟨before, after, rfl, start, lastDot_none.mp second, clean⟩))
      | some parts =>
          obtain ⟨front, inner⟩ := parts
          obtain ⟨rfl, clean'⟩ := lastDot_some second
          exact .inr (.inr (.inr ⟨front, inner, after, rfl, clean', clean⟩))

section Test

variable {filename ext before after front inner last : Bytes}

theorem hasDoubleExtension_none (clean : dot ∉ toLower filename) :
    hasDoubleExtension filename = false := by
  rw [hasDoubleExtension, lastDot_none.mpr clean]

theorem hasDoubleExtension_bare (lower : toLower filename = dot :: ext) (clean : dot ∉ ext) :
    hasDoubleExtension filename = isDocument ext := by
  rw [hasDoubleExtension, lower, ← List.nil_append (dot :: ext), lastDot_append clean]

theorem hasDoubleExtension_single (lower : toLower filename = before ++ dot :: after)
    (start : before ≠ []) (clean : dot ∉ before) (clean' : dot ∉ after) :
    hasDoubleExtension filename = false := by
  obtain ⟨c, rest, rfl⟩ := List.exists_cons_of_ne_nil start
  rw [hasDoubleExtension, lower, lastDot_append clean']
  dsimp only
  rw [lastDot_none.mpr clean]

theorem hasDoubleExtension_inner (lower : toLower filename = front ++ dot :: inner ++ dot :: last)
    (clean : dot ∉ inner) (clean' : dot ∉ last) : hasDoubleExtension filename = isDocument inner := by
  have second := @lastDot_append front inner clean
  rw [hasDoubleExtension, lower, lastDot_append clean']
  obtain ⟨c, rest, same⟩ := List.exists_cons_of_ne_nil (l := front ++ dot :: inner) (by simp)
  rw [same] at second ⊢
  dsimp only
  rw [second]

theorem doubleExtensionAt_none (clean : dot ∉ before) : doubleExtensionAt before = false := by
  rw [doubleExtensionAt, findLastOf_clean clean]

/-- The position wraps around to the end, and so does the length of what is taken. -/
theorem doubleExtensionAt_bare (fits : (dot :: ext).length < 2 ^ 64) (clean : dot ∉ ext) :
    doubleExtensionAt (dot :: ext) = isDocument ext := by
  rw [List.length_cons] at fits
  have here : ∀ pos, findLastOf dot (dot :: ext) pos = some 0 := fun pos =>
    @findLastOf_append dot [] ext pos clean (Nat.zero_le pos)
  have all : ext.take (2 ^ 64 - 1) = ext := List.take_of_length_le (by omega)
  rw [doubleExtensionAt, here]
  dsimp only
  rw [here]
  exact congrArg isDocument all

theorem doubleExtensionAt_before (fits : (before ++ dot :: after).length < 2 ^ 64)
    (start : before ≠ []) (clean : dot ∉ after) : doubleExtensionAt (before ++ dot :: after) =
      match findLastOf dot before npos with
      | none => false
      | some prev => isDocument (((before ++ dot :: after).drop (prev + 1)).take
          ((before.length + 2 ^ 64 - prev - 1) % 2 ^ 64)) := by
  rw [List.length_append, List.length_cons] at fits
  have positive := List.length_pos_iff.mpr start
  have last : findLastOf dot (before ++ dot :: after) npos = some before.length :=
    findLastOf_append clean (by unfold npos; omega)
  have below : (before.length + 2 ^ 64 - 1) % 2 ^ 64 = before.length - 1 := by omega
  rw [doubleExtensionAt, last]
  dsimp only
  rw [below, findLastOf_before start (by unfold npos; omega)]

end Test

/-- With positions or with texts, the test is the same. -/
theorem doubleExtensionAt_eq {filename : Bytes} (fits : filename.length < 2 ^ 64) :
    doubleExtensionAt (toLower filename) = hasDoubleExtension filename := by
  have fits : (toLower filename).length < 2 ^ 64 := by simpa [toLower] using fits
  rcases dots_cases (toLower filename) with clean | ⟨ext, lower, clean⟩ |
    ⟨before, after, lower, start, clean, clean'⟩ | ⟨front, inner, last, lower, clean, clean'⟩
  · rw [doubleExtensionAt_none clean, hasDoubleExtension_none clean]
  · rw [lower] at fits
    rw [lower, doubleExtensionAt_bare fits clean, hasDoubleExtension_bare lower clean]
  · rw [lower] at fits
    rw [lower, doubleExtensionAt_before fits start clean', findLastOf_clean clean,
      hasDoubleExtension_single lower start clean clean']
  · rw [lower] at fits
    rw [lower, doubleExtensionAt_before fits (by simp) clean', hasDoubleExtension_inner lower clean clean']
    simp only [List.length_append, List.length_cons] at fits
    have prev : findLastOf dot (front ++ dot :: inner) npos = some front.length :=
      findLastOf_append clean (by unfold npos; omega)
    have width : ((front ++ dot :: inner).length + 2 ^ 64 - front.length - 1) % 2 ^ 64 =
        inner.length := by
      rw [List.length_append, List.length_cons]
      omega
    rw [prev]
    dsimp only
    rw [width]
    simp

/-! ## What the test finds -/

/-- The text has two dots, and between its last two dots stands the ending of a document. -/
def HasInnerDocument (text : Bytes) : Prop :=
  ∃ front inner last, text = front ++ dot :: (inner ++ dot :: last) ∧ dot ∉ inner ∧ dot ∉ last ∧
    isDocument inner = true

section Inner

variable {front inner last before after ext : Bytes}

theorem hasInnerDocument_append (clean : dot ∉ inner) (clean' : dot ∉ last) :
    HasInnerDocument (front ++ dot :: inner ++ dot :: last) ↔ isDocument inner = true := by
  constructor
  · rintro ⟨front', inner', last', same, cleanInner, cleanLast, document⟩
    have whole : front ++ dot :: inner ++ dot :: last = front' ++ dot :: inner' ++ dot :: last' := by
      simpa using same
    have known := @lastDot_append (front ++ dot :: inner) last clean'
    rw [whole, lastDot_append cleanLast] at known
    obtain ⟨before, -⟩ := Prod.mk.inj (Option.some.inj known)
    have second := @lastDot_append front inner clean
    rw [← before, lastDot_append cleanInner] at second
    obtain ⟨-, rfl⟩ := Prod.mk.inj (Option.some.inj second)
    exact document
  · exact fun document => ⟨front, inner, last, by simp, clean, clean', document⟩

theorem not_hasInnerDocument (clean : dot ∉ before) (clean' : dot ∉ after) :
    ¬ HasInnerDocument (before ++ dot :: after) := by
  rintro ⟨front, inner, last, same, -, cleanLast, -⟩
  have whole : before ++ dot :: after = (front ++ dot :: inner) ++ dot :: last := by
    simpa using same
  have known := @lastDot_append before after clean'
  rw [whole, lastDot_append cleanLast] at known
  obtain ⟨rfl, -⟩ := Prod.mk.inj (Option.some.inj known)
  simp at clean

theorem isDocument_clean (document : isDocument ext = true) : dot ∉ ext := by
  simp only [isDocument, Bool.or_eq_true, beq_iff_eq] at document
  rcases document with (rfl | rfl) | rfl <;> decide

theorem not_bare (start : before ≠ []) :
    ¬ ∃ ext, isDocument ext = true ∧ before ++ dot :: after = dot :: ext := by
  rintro ⟨ext, document, same⟩
  obtain ⟨c, rest, rfl⟩ := List.exists_cons_of_ne_nil start
  have clean := isDocument_clean document
  rw [← (List.cons.inj same).2] at clean
  simp at clean

end Inner

/-- The test says that there are two dots with the ending of a document between the last two,
    and it is right unless the name is such an ending behind a dot, and nothing else. -/
theorem hasDoubleExtension_iff (filename : Bytes) :
    (hasDoubleExtension filename = true ↔ HasInnerDocument (toLower filename)) ↔
      ¬ ∃ ext, isDocument ext = true ∧ toLower filename = dot :: ext := by
  rcases dots_cases (toLower filename) with clean | ⟨ext, lower, clean⟩ |
    ⟨before, after, lower, start, clean, clean'⟩ | ⟨front, inner, last, lower, clean, clean'⟩
  · apply iff_of_true
    · rw [hasDoubleExtension_none clean]
      apply iff_of_false Bool.false_ne_true
      rintro ⟨front, inner, last, same, -⟩
      rw [same] at clean
      simp at clean
    · rintro ⟨ext, -, same⟩
      rw [same] at clean
      simp at clean
  · have none_ : ¬ HasInnerDocument (dot :: ext) :=
      @not_hasInnerDocument [] ext List.not_mem_nil clean
    rw [hasDoubleExtension_bare lower clean, lower]
    simp [none_]
  · rw [hasDoubleExtension_single lower start clean clean', lower]
    exact iff_of_true (iff_of_false Bool.false_ne_true (not_hasInnerDocument clean clean'))
      (not_bare start)
  · rw [hasDoubleExtension_inner lower clean clean', lower, hasInnerDocument_append clean clean']
    exact iff_of_true Iff.rfl (not_bare (by simp))

/-- A name that is all extension. -/
theorem bare_extension : hasDoubleExtension (ascii ".pdf") = true ∧
    ¬ HasInnerDocument (toLower (ascii ".pdf")) :=
  ⟨by decide, @not_hasInnerDocument [] (ascii "pdf") List.not_mem_nil (by decide)⟩

end EmailServer.Policy
