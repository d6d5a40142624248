import Mathlib.Data.List.Forall2
import EmailServer.AntiSpam.RelaxedBody

/-! # Folded header fields

A field can be written in many ways: with names in either case, with any white space
between the words of its value, and folded before any of it. The lines of a block are put
together again, trimmed and compressed, so that all of these have one canonical form.
-/

namespace EmailServer.AntiSpam.DkimCanon

open EmailServer.Bytes

/-! ## Fields and how they are written -/

/-- Neither white space nor a part of a line end. -/
def isInk (c : UInt8) : Bool := !isWsp c && c != cr && c != lf

/-- A header field: its name and the words of its value. -/
structure HeaderField where
  name : Bytes
  tokens : List Bytes
  named : name ≠ [] ∧ colon ∉ name ∧ ∀ c ∈ name, isInk c = true
  words : ∀ token ∈ tokens, token ≠ [] ∧ ∀ c ∈ token, isInk c = true

/-- What a field is written with: a byte of a name or a word, or a space or a tab, which
    may stand at the beginning of a new line. -/
inductive Glyph where
  | ink (c : UInt8)
  | blank (isTab folded : Bool)

namespace Glyph

def wsp (isTab : Bool) : UInt8 := if isTab then tab else space

def raw : Glyph → Bytes
  | ink c => [c]
  | blank isTab folded => (if folded then crlf else []) ++ [wsp isTab]

/-- What becomes of it when the lines are put together again. -/
def unfolded : Glyph → UInt8
  | ink c => c
  | blank isTab folded => if folded then space else wsp isTab

end Glyph

/-- A run of white space, with the places where it is folded. -/
abbrev Run := List (Bool × Bool)

def Run.glyphs (run : Run) : List Glyph := run.map fun blank => .blank blank.1 blank.2

/-- The words with a run behind each, which may be empty behind the last. -/
inductive Spaced : List Bytes → List Glyph → Prop
  | none : Spaced [] []
  | last (token : Bytes) (trail : Run) : Spaced [token] (token.map .ink ++ trail.glyphs)
  | more (token : Bytes) {gap : Run} {next : Bytes} {tokens : List Bytes} {rest : List Glyph} :
      gap ≠ [] → Spaced (next :: tokens) rest →
      Spaced (token :: next :: tokens) (token.map .ink ++ (gap.glyphs ++ rest))

/-- A way to write a field, up to the end of its last line. -/
inductive Written (field : HeaderField) : List Glyph → Prop
  | intro (name : Bytes) (lead : Run) {value : List Glyph} : toLower name = toLower field.name →
      Spaced field.tokens value →
      Written field (name.map .ink ++ (.ink colon :: (lead.glyphs ++ value)))

/-- A way to write the fields as a header block. -/
def Renders (fields : List HeaderField) (block : Bytes) : Prop :=
  ∃ written, List.Forall₂ Written fields written ∧
    block = written.flatMap fun glyphs => glyphs.flatMap Glyph.raw ++ crlf

/-- The canonical form of a field. -/
def HeaderField.canonical (field : HeaderField) : Bytes :=
  toLower field.name ++ colon :: [space].intercalate field.tokens

/-! ## Lines -/

/-- The lines on which glyphs are written, the first apart. -/
def physicalLines : List Glyph → Bytes × List Bytes
  | [] => ([], [])
  | .ink c :: glyphs => (c :: (physicalLines glyphs).1, (physicalLines glyphs).2)
  | .blank isTab folded :: glyphs =>
      let line := Glyph.wsp isTab :: (physicalLines glyphs).1
      if folded then ([], line :: (physicalLines glyphs).2) else (line, (physicalLines glyphs).2)

section Lines

variable {glyphs : List Glyph}

theorem physicalLines_raw (glyphs : List Glyph) :
    crlfLines ((physicalLines glyphs).1 :: (physicalLines glyphs).2) =
      glyphs.flatMap Glyph.raw ++ crlf := by
  induction glyphs with
  | nil => rfl
  | cons glyph glyphs ih =>
      simp only [crlfLines, List.flatMap_cons] at ih
      cases glyph with
      | ink c => simp [physicalLines, crlfLines, Glyph.raw, ih]
      | blank isTab folded => cases folded <;> simp [physicalLines, crlfLines, Glyph.raw, ih]

theorem physicalLines_unfolded (glyphs : List Glyph) :
    (physicalLines glyphs).1 ++ (physicalLines glyphs).2.flatMap (fun line => space :: line.tail) =
      glyphs.map Glyph.unfolded := by
  induction glyphs with
  | nil => rfl
  | cons glyph glyphs ih =>
      cases glyph with
      | ink c => simp [physicalLines, Glyph.unfolded, ih]
      | blank isTab folded => cases folded <;> simp [physicalLines, Glyph.unfolded, ih]

theorem physicalLines_folded {line : Bytes} (member : line ∈ (physicalLines glyphs).2) :
    line.head?.any isWsp = true := by
  induction glyphs with
  | nil => cases member
  | cons glyph glyphs ih =>
      cases glyph with
      | ink c => exact ih member
      | blank isTab folded =>
          cases folded with
          | false => exact ih member
          | true =>
              rcases List.mem_cons.mp member with rfl | later
              · cases isTab <;> rfl
              · exact ih later

/-- What is written has no line feed of its own. -/
def Tidy (glyphs : List Glyph) : Prop := ∀ c, Glyph.ink c ∈ glyphs → c ≠ lf

theorem wsp_ne_lf (isTab : Bool) : lf ≠ Glyph.wsp isTab := by cases isTab <;> decide

theorem physicalLines_tidy (tidy : Tidy glyphs) :
    ∀ line ∈ (physicalLines glyphs).1 :: (physicalLines glyphs).2, lf ∉ line := by
  induction glyphs with
  | nil => simp [physicalLines]
  | cons glyph glyphs ih =>
      obtain ⟨first, others⟩ := List.forall_mem_cons.mp
        (ih fun c member => tidy c (List.mem_cons_of_mem glyph member))
      cases glyph with
      | ink c =>
          have other : lf ≠ c := (tidy c List.mem_cons_self).symm
          exact List.forall_mem_cons.mpr ⟨by simp [physicalLines, other, first], others⟩
      | blank isTab folded =>
          have line : lf ∉ Glyph.wsp isTab :: (physicalLines glyphs).1 := by
            simp [wsp_ne_lf, first]
          cases folded with
          | false => exact List.forall_mem_cons.mpr ⟨line, others⟩
          | true =>
              exact List.forall_mem_cons.mpr ⟨by simp [physicalLines],
                List.forall_mem_cons.mpr ⟨line, others⟩⟩

/-! ## Putting the lines together -/

variable {st : List Bytes × Bytes} {lines : List Bytes} {current line : Bytes}

/-- The fields when the last one is taken as well. -/
def finish (st : List Bytes × Bytes) : List Bytes := if st.2 ≠ [] then st.1 ++ [st.2] else st.1

theorem addLine_further (white : line.head?.any isWsp = true) :
    addLine (lines, current) (line ++ [cr]) = (lines, current ++ space :: line.tail) := by
  simp [addLine, white]

theorem addLine_first (ink : line.head?.any isWsp = false) :
    addLine st (line ++ [cr]) = (finish st, line) := by
  simp [addLine, finish, ink]

theorem addLine_furthers (white : ∀ line ∈ lines, line.head?.any isWsp = true)
    (before : List Bytes) (current : Bytes) :
    (lines.map (· ++ [cr])).foldl addLine (before, current) =
      (before, current ++ lines.flatMap fun line => space :: line.tail) := by
  induction lines generalizing current with
  | nil => simp
  | cons line lines ih =>
      obtain ⟨here, later⟩ := List.forall_mem_cons.mp white
      rw [List.map_cons, List.foldl_cons, addLine_further here, ih later, List.flatMap_cons,
        List.append_assoc]

theorem addLine_glyphs (nonempty : (physicalLines glyphs).1 ≠ [])
    (ink : (physicalLines glyphs).1.head?.any isWsp = false) :
    finish ((((physicalLines glyphs).1 :: (physicalLines glyphs).2).map (· ++ [cr])).foldl addLine st) =
      finish st ++ [glyphs.map Glyph.unfolded] := by
  have whole := physicalLines_unfolded glyphs
  rw [List.map_cons, List.foldl_cons, addLine_first ink,
    addLine_furthers fun line member => physicalLines_folded member, whole, finish, if_pos]
  rw [← whole]
  simp [nonempty]

theorem unfoldLines_block {written : List (List Glyph)} (tidy : ∀ glyphs ∈ written, Tidy glyphs)
    (begins : ∀ glyphs ∈ written, (physicalLines glyphs).1 ≠ [] ∧
      (physicalLines glyphs).1.head?.any isWsp = false) :
    unfoldLines (written.flatMap fun glyphs => glyphs.flatMap Glyph.raw ++ crlf) =
      written.map (List.map Glyph.unfolded) := by
  have block : (written.flatMap fun glyphs => glyphs.flatMap Glyph.raw ++ crlf) =
      crlfLines (written.flatMap fun glyphs => (physicalLines glyphs).1 :: (physicalLines glyphs).2) := by
    simp only [← physicalLines_raw, crlfLines, List.flatMap_assoc]
  have folded : ∀ st : List Bytes × Bytes, finish (((written.flatMap fun glyphs =>
      (physicalLines glyphs).1 :: (physicalLines glyphs).2).map (· ++ [cr])).foldl addLine st) =
        finish st ++ written.map (List.map Glyph.unfolded) := by
    clear tidy block
    induction written with
    | nil => simp
    | cons glyphs written ih =>
        intro st
        obtain ⟨⟨nonempty, ink⟩, others⟩ := List.forall_mem_cons.mp begins
        rw [List.flatMap_cons, List.map_append, List.foldl_append, ih others,
          addLine_glyphs nonempty ink, List.append_assoc]
        rfl
  have clean : ∀ line ∈ written.flatMap fun glyphs =>
      (physicalLines glyphs).1 :: (physicalLines glyphs).2, lf ∉ line := by
    intro line member
    obtain ⟨glyphs, inWritten, member⟩ := List.mem_flatMap.mp member
    exact physicalLines_tidy (tidy glyphs inWritten) line member
  rw [block]
  exact (congrArg _ (congrArg _ (getlines_crlfLines clean))).trans (folded ([], []))

end Lines

/-! ## Values -/

section Values

variable {token tokens : Bytes} {rest white : Bytes}

theorem isInk_plain {c : UInt8} (ink : isInk c = true) :
    isWsp c = false ∧ c ≠ cr ∧ c ≠ lf := by
  simpa [isInk, and_assoc] using ink

theorem compressWsp_ink (ink : ∀ c ∈ token, isWsp c = false) :
    compressWsp false (token ++ rest) = token ++ compressWsp false rest := by
  induction token with
  | nil => rfl
  | cons c token ih =>
      obtain ⟨here, later⟩ := List.forall_mem_cons.mp ink
      rw [List.cons_append, compressWsp, here, ih later]
      rfl

theorem compressWsp_fresh (ink : rest.head?.any isWsp = false) :
    compressWsp true rest = compressWsp false rest := by
  cases rest with
  | nil => rfl
  | cons c rest =>
      have here : isWsp c = false := ink
      rw [compressWsp, compressWsp, here]
      rfl

theorem compressWsp_white (blank : ∀ c ∈ white, isWsp c = true) :
    compressWsp true (white ++ rest) = compressWsp true rest := by
  induction white with
  | nil => rfl
  | cons c white ih =>
      obtain ⟨here, later⟩ := List.forall_mem_cons.mp blank
      rw [List.cons_append, compressWsp, if_pos here, if_pos rfl, ih later]

theorem run_unfolded (run : Run) : ∀ c ∈ run.glyphs.map Glyph.unfolded, isWsp c = true := by
  intro c member
  obtain ⟨glyph, inRun, rfl⟩ := List.mem_map.mp member
  obtain ⟨⟨isTab, folded⟩, -, rfl⟩ := List.mem_map.mp inRun
  cases isTab <;> cases folded <;> rfl

theorem ink_unfolded (text : Bytes) : (text.map Glyph.ink).map Glyph.unfolded = text := by
  rw [List.map_map]
  exact List.map_id text

theorem spaced_text {tokens : List Bytes} {glyphs : List Glyph} (spaced : Spaced tokens glyphs)
    (words : ∀ token ∈ tokens, token ≠ [] ∧ ∀ c ∈ token, isWsp c = false) (nonempty : tokens ≠ []) :
    ∃ text trail, glyphs.map Glyph.unfolded = text ++ trail ∧ (∀ c ∈ trail, isWsp c = true) ∧
      text.head?.any isWsp = false ∧ (∃ c, text.getLast? = some c ∧ isWsp c = false) ∧
      compressWsp false text = [space].intercalate tokens := by
  induction spaced with
  | none => exact absurd rfl nonempty
  | last token trail =>
      obtain ⟨some_, ink⟩ := words token List.mem_cons_self
      refine ⟨token, trail.glyphs.map Glyph.unfolded, ?_, run_unfolded trail, ?_, ?_, ?_⟩
      · rw [List.map_append, ink_unfolded]
      · obtain ⟨c, token, rfl⟩ := List.exists_cons_of_ne_nil some_
        exact ink c List.mem_cons_self
      · exact ⟨_, List.getLast?_eq_some_getLast some_, ink _ (List.getLast_mem some_)⟩
      · have whole := @compressWsp_ink token [] ink
        rw [List.append_nil, compressWsp, List.append_nil] at whole
        rw [whole, List.intercalate_singleton]
  | @more token gap next tokens rest some_ _ ih =>
      obtain ⟨⟨nonempty, ink⟩, others⟩ := List.forall_mem_cons.mp words
      obtain ⟨text, trail, split, white, head, last, compressed⟩ := ih others (List.cons_ne_nil _ _)
      have blank := run_unfolded gap
      obtain ⟨c, run, gapText⟩ : ∃ c run, gap.glyphs.map Glyph.unfolded = c :: run := by
        apply List.exists_cons_of_ne_nil
        simpa [Run.glyphs] using some_
      refine ⟨token ++ (gap.glyphs.map Glyph.unfolded ++ text), trail, ?_, white, ?_, ?_, ?_⟩
      · rw [List.map_append, List.map_append, ink_unfolded, split]
        simp only [List.append_assoc]
      · obtain ⟨d, token, rfl⟩ := List.exists_cons_of_ne_nil nonempty
        exact ink d List.mem_cons_self
      · obtain ⟨d, isLast, plain⟩ := last
        refine ⟨d, ?_, plain⟩
        simp [List.getLast?_append, isLast]
      · rw [gapText] at blank ⊢
        obtain ⟨here, later⟩ := List.forall_mem_cons.mp blank
        rw [compressWsp_ink ink, List.cons_append, compressWsp, if_pos here, if_neg Bool.false_ne_true,
          compressWsp_white later, compressWsp_fresh head, compressed, List.intercalate_cons_cons]
        simp

theorem value_canonical {tokens : List Bytes} {glyphs : List Glyph} (spaced : Spaced tokens glyphs)
    (words : ∀ token ∈ tokens, token ≠ [] ∧ ∀ c ∈ token, isWsp c = false) (lead : Run) :
    compressWsp false ((((lead.glyphs ++ glyphs).map Glyph.unfolded).dropWhile isWsp).reverse.dropWhile
      isWsp).reverse = [space].intercalate tokens := by
  rw [List.map_append, List.dropWhile_append_of_pos (run_unfolded lead)]
  by_cases nonempty : tokens = []
  · subst nonempty
    cases spaced
    rfl
  · obtain ⟨text, trail, split, white, head, ⟨c, isLast, plain⟩, compressed⟩ :=
      spaced_text spaced words nonempty
    obtain ⟨front, rfl⟩ := List.getLast?_eq_some_iff.mp isLast
    have begins : (front ++ [c] ++ trail).dropWhile isWsp = front ++ [c] ++ trail := by
      cases front with
      | nil => exact List.dropWhile_cons_of_neg (by simp [plain])
      | cons d front =>
          have ink : isWsp d = false := head
          exact List.dropWhile_cons_of_neg (by simp [ink])
    rw [split, begins, List.reverse_append, List.dropWhile_append_of_pos (by simpa using white),
      List.reverse_append, List.reverse_singleton, List.singleton_append,
      List.dropWhile_cons_of_neg (by simp [plain]), ← compressed]
    simp

end Values

/-! ## Renderings -/

section Renderings

variable {field : HeaderField} {fields : List HeaderField} {glyphs : List Glyph} {block : Bytes}

theorem HeaderField.words_ink (field : HeaderField) :
    ∀ token ∈ field.tokens, token ≠ [] ∧ ∀ c ∈ token, isWsp c = false := by
  intro token member
  obtain ⟨nonempty, ink⟩ := field.words token member
  exact ⟨nonempty, fun c inside => (isInk_plain (ink c inside)).1⟩

theorem mem_name {name : Bytes} (same : toLower name = toLower field.name) {c : UInt8}
    (unchanged : lowerByte c = c) (small : ¬ (97 ≤ c.toNat ∧ c.toNat ≤ 122)) (member : c ∈ name) :
    c ∈ field.name := by
  have lower : lowerByte c ∈ toLower field.name := same ▸ List.mem_map_of_mem member
  obtain ⟨d, inName, lower⟩ := List.mem_map.mp lower
  rw [unchanged] at lower
  exact lowerByte_other small lower ▸ inName

theorem name_ink {name : Bytes} (same : toLower name = toLower field.name) :
    name ≠ [] ∧ colon ∉ name ∧ ∀ c ∈ name, isInk c = true := by
  obtain ⟨nonempty, clean, ink⟩ := field.named
  refine ⟨?_, fun member => clean (mem_name same rfl (by decide) member), ?_⟩
  · rintro rfl
    exact nonempty (List.map_eq_nil_iff.mp same.symm)
  · intro c member
    by_contra blot
    have special : ((c = space ∨ c = tab) ∨ c = cr) ∨ c = lf := by
      by_contra other
      push Not at other
      exact blot (by simp [isInk, isWsp, other])
    have inName : c ∈ field.name := by
      rcases special with ((rfl | rfl) | rfl) | rfl <;> exact mem_name same rfl (by decide) member
    exact blot (ink c inName)

theorem written_canonical (written : Written field glyphs) (want : Bytes) :
    canonicalField want (glyphs.map Glyph.unfolded) =
      if toLower field.name = want then some field.canonical else none := by
  obtain ⟨name, lead, same, spaced⟩ := written
  obtain ⟨-, clean, -⟩ := name_ink same
  have value := value_canonical spaced field.words_ink lead
  rw [List.map_append, ink_unfolded, List.map_cons, canonicalField, Glyph.unfolded,
    cut_append clean]
  dsimp only
  rw [same, value]
  rfl

theorem physicalLines_ink (text : Bytes) (glyphs : List Glyph) :
    (physicalLines (text.map .ink ++ glyphs)).1 = text ++ (physicalLines glyphs).1 := by
  induction text with
  | nil => rfl
  | cons c text ih => exact congrArg (c :: ·) ih

theorem run_tidy (run : Run) : Tidy run.glyphs := by
  intro c member
  obtain ⟨_, _, same⟩ := List.mem_map.mp member
  cases same

theorem Tidy.append {more : List Glyph} (first : Tidy glyphs) (second : Tidy more) :
    Tidy (glyphs ++ more) := fun c member => (List.mem_append.mp member).elim (first c) (second c)

theorem ink_tidy {text : Bytes} (ink : ∀ c ∈ text, isInk c = true) : Tidy (text.map .ink) := by
  intro c member
  obtain ⟨d, inText, same⟩ := List.mem_map.mp member
  cases same
  exact (isInk_plain (ink c inText)).2.2

theorem spaced_tidy {tokens : List Bytes} (spaced : Spaced tokens glyphs)
    (words : ∀ token ∈ tokens, ∀ c ∈ token, isInk c = true) : Tidy glyphs := by
  induction spaced with
  | none =>
      intro c member
      cases member
  | last token trail => exact (ink_tidy (words token List.mem_cons_self)).append (run_tidy trail)
  | @more token gap next tokens rest _ _ ih =>
      obtain ⟨here, later⟩ := List.forall_mem_cons.mp words
      exact (ink_tidy here).append ((run_tidy gap).append (ih later))

theorem written_tidy (written : Written field glyphs) : Tidy glyphs := by
  obtain ⟨name, lead, same, spaced⟩ := written
  have value := (run_tidy lead).append
    (spaced_tidy spaced fun token member => (field.words token member).2)
  refine (ink_tidy (name_ink same).2.2).append fun c member => ?_
  rcases List.mem_cons.mp member with isColon | later
  · cases isColon
    decide
  · exact value c later

theorem written_begins (written : Written field glyphs) :
    (physicalLines glyphs).1 ≠ [] ∧ (physicalLines glyphs).1.head?.any isWsp = false := by
  obtain ⟨name, lead, same, spaced⟩ := written
  obtain ⟨nonempty, -, ink⟩ := name_ink same
  obtain ⟨c, name, rfl⟩ := List.exists_cons_of_ne_nil nonempty
  rw [physicalLines_ink]
  exact ⟨List.cons_ne_nil _ _, (isInk_plain (ink c List.mem_cons_self)).1⟩

theorem forall_written {P : List Glyph → Prop} {written : List (List Glyph)}
    (all : List.Forall₂ Written fields written) (each : ∀ {field glyphs}, Written field glyphs → P glyphs) :
    ∀ glyphs ∈ written, P glyphs := by
  induction all with
  | nil =>
      intro glyphs member
      cases member
  | cons first _ ih => exact List.forall_mem_cons.mpr ⟨each first, ih⟩

/-- What is selected from a block depends on its fields only. -/
theorem renders_selected (renders : Renders fields block) (names : List Bytes) :
    canonicalizeHeadersRelaxed block names = names.reverse.filterMap fun name =>
      fields.reverse.findSome? fun field =>
        if toLower field.name = toLower name then some field.canonical else none := by
  obtain ⟨written, all, rfl⟩ := renders
  rw [canonicalizeHeadersRelaxed, unfoldLines_block (forall_written all written_tidy)
    (forall_written all written_begins)]
  congr 1
  funext name
  have read : (written.map (List.map Glyph.unfolded)).map (canonicalField (toLower name)) =
      fields.map fun field =>
        if toLower field.name = toLower name then some field.canonical else none := by
    induction all with
    | nil => rfl
    | cons first _ ih => rw [List.map_cons, List.map_cons, List.map_cons, written_canonical first, ih]
  have answers := congrArg (fun l => l.reverse.findSome? id) read
  simp only [← List.map_reverse, List.findSome?_map, Function.id_comp] at answers
  simpa only [← List.map_reverse, List.findSome?_map] using answers

/-- Two ways to write the same fields have the same canonical form for every list of
    names: for each name, from the last one on, that of the last field which has it. -/
theorem renderings_agree {block₁ block₂ : Bytes} (first : Renders fields block₁)
    (second : Renders fields block₂) (names : List Bytes) :
    canonicalizeHeadersRelaxed block₁ names = canonicalizeHeadersRelaxed block₂ names ∧
      (canonicalizeHeadersRelaxed block₁ names = names.reverse.filterMap fun name =>
        fields.reverse.findSome? fun field =>
          if toLower field.name = toLower name then some field.canonical else none) ∧
      ∀ out ∈ canonicalizeHeadersRelaxed block₁ names, ∃ name ∈ names, ∃ field ∈ fields,
        toLower field.name = toLower name ∧
          out = toLower field.name ++ colon :: [space].intercalate field.tokens := by
  have selected := renders_selected first names
  refine ⟨selected.trans (renders_selected second names).symm, selected, ?_⟩
  intro out member
  rw [selected] at member
  obtain ⟨name, inNames, found⟩ := List.mem_filterMap.mp member
  obtain ⟨field, inFields, same⟩ := List.exists_of_findSome?_eq_some found
  split at same
  · rename_i named
    cases same
    exact ⟨name, List.mem_reverse.mp inNames, field, List.mem_reverse.mp inFields, named, rfl⟩
  · cases same

theorem subject_named : ascii "Subject" ≠ [] ∧ colon ∉ ascii "Subject" ∧
    ∀ c ∈ ascii "Subject", isInk c = true :=
  ⟨by decide, by decide, List.all_eq_true.mp rfl⟩

theorem subject_words : ∀ token ∈ [ascii "two", ascii "words"], token ≠ [] ∧
    ∀ c ∈ token, isInk c = true := by
  intro token member
  rcases List.mem_pair.mp member with rfl | rfl
  · exact ⟨by decide, List.all_eq_true.mp rfl⟩
  · exact ⟨by decide, List.all_eq_true.mp rfl⟩

/-- A field with a value of two words. -/
def subjectField : HeaderField :=
  ⟨ascii "Subject", [ascii "two", ascii "words"], subject_named, subject_words⟩

/-- Written on one line and folded over four. -/
theorem renderings_agree_subject :
    canonicalizeHeadersRelaxed (ascii "Subject: two words\r\n") [ascii "subject"] =
      canonicalizeHeadersRelaxed (ascii "SUBJECT:\r\n\ttwo \r\n \r\n words\t\r\n") [ascii "subject"] ∧
    canonicalizeHeadersRelaxed (ascii "Subject: two words\r\n") [ascii "subject"] =
      [ascii "subject:two words"] := by
  have flat : Renders [subjectField] (ascii "Subject: two words\r\n") :=
    ⟨_, .cons (.intro (ascii "Subject") [(false, false)] rfl (.more _ (List.cons_ne_nil (false, false) [])
      (.last _ []))) .nil, rfl⟩
  have folded : Renders [subjectField] (ascii "SUBJECT:\r\n\ttwo \r\n \r\n words\t\r\n") :=
    ⟨_, .cons (.intro (ascii "SUBJECT") [(true, true)] rfl (.more _
      (List.cons_ne_nil (false, false) [(false, true), (false, true)])
      (.last _ [(true, false)]))) .nil, rfl⟩
  obtain ⟨same, selected, -⟩ := renderings_agree flat folded [ascii "subject"]
  exact ⟨same, selected.trans (by decide)⟩

end Renderings

end EmailServer.AntiSpam.DkimCanon
