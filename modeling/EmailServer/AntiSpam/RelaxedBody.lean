import Mathlib.Data.List.Chain
import Mathlib.Data.List.DropRight
import EmailServer.AntiSpam.DkimCanon

/-! # The relaxed form of a body

What the function makes of a body depends on its content: the body without carriage
returns and without the line feeds at its end. The loop that erases line breaks reads
out of range when the content is a single byte, and no white space is ever reduced.
-/

namespace EmailServer.AntiSpam.DkimCanon

open EmailServer.Bytes

/-! ## The content of a body -/

/-- The body without its carriage returns. -/
def withoutCr (body : Bytes) : Bytes := body.filter (· != cr)

/-- What is left of it without the line feeds at its end. -/
def content (body : Bytes) : Bytes := (withoutCr body).rdropWhile (· == lf)

section Breaks

variable {body text : Bytes}

theorem normalizeBreaks_append (s t : Bytes) :
    normalizeBreaks (s ++ t) = normalizeBreaks s ++ normalizeBreaks t := List.flatMap_append

theorem normalizeBreaks_withoutCr (body : Bytes) :
    normalizeBreaks (withoutCr body) = normalizeBreaks body := by
  induction body with
  | nil => rfl
  | cons c body ih =>
      simp only [withoutCr, normalizeBreaks, List.flatMap_cons] at ih ⊢
      by_cases isCr : c = cr
      · rw [List.filter_cons_of_neg (by simp [isCr]), ih, if_pos isCr, List.nil_append]
      · rw [List.filter_cons_of_pos (by simp [isCr]), List.flatMap_cons, ih]

theorem withoutCr_normalizeBreaks (clean : cr ∉ text) : withoutCr (normalizeBreaks text) = text := by
  induction text with
  | nil => rfl
  | cons c text ih =>
      obtain ⟨other, clean⟩ := List.ne_and_not_mem_of_not_mem_cons clean
      have later := ih clean
      simp only [withoutCr, normalizeBreaks, List.flatMap_cons, List.filter_append] at later ⊢
      rw [later, if_neg other.symm]
      split
      · rename_i isLf
        rw [isLf]
        rfl
      · simp [other.symm]

theorem normalizeBreaks_replicate (n : Nat) :
    (normalizeBreaks (List.replicate n lf)).reverse = (List.replicate n [lf, cr]).flatten := by
  induction n with
  | zero => rfl
  | succ n ih =>
      rw [List.replicate_succ', normalizeBreaks_append, List.reverse_append, ih, List.replicate_succ,
        List.flatten_cons]
      rfl

theorem content_clean : cr ∉ content body := by
  intro member
  have inBody := (List.rdropWhile_prefix _ _).subset member
  simp [withoutCr] at inBody

theorem content_last : (content body).getLast? ≠ some lf := by
  intro last
  obtain ⟨front, split⟩ := List.getLast?_eq_some_iff.mp last
  have nonempty : content body ≠ [] := by simp [split]
  have stops : ¬ ((content body).getLast nonempty == lf) = true :=
    List.rdropWhile_last_not _ _ nonempty
  simp [split] at stops

theorem withoutCr_split (body : Bytes) :
    ∃ n, withoutCr body = content body ++ List.replicate n lf := by
  have feeds : ∀ c ∈ (withoutCr body).rtakeWhile (· == lf), c = lf := by
    intro c member
    simpa using List.mem_rtakeWhile_imp member
  refine ⟨((withoutCr body).rtakeWhile (· == lf)).length, ?_⟩
  rw [← List.eq_replicate_of_mem feeds]
  exact List.rdropWhile_append_rtakeWhile.symm

theorem content_eq {n : Nat} (last : text.getLast? ≠ some lf)
    (split : withoutCr body = text ++ List.replicate n lf) : content body = text := by
  rw [content, split]
  clear split
  induction n with
  | zero =>
      rw [List.replicate_zero, List.append_nil, List.rdropWhile_eq_self_iff]
      intro nonempty isLf
      exact last (List.getLast?_eq_some_getLast nonempty ▸ congrArg some (by simpa using isLf))
  | succ n ih =>
      rw [List.replicate_succ', ← List.append_assoc, List.rdropWhile_concat_pos _ _ _ rfl, ih]

/-! ## The loop -/

theorem eraseBreaks_plain (first : text.head? ≠ some lf) : eraseBreaks text = some text := by
  cases text with
  | nil => rfl
  | cons x text =>
      cases text with
      | nil => rfl
      | cons y text =>
          have other : [y, x] ≠ crlf := by
            intro same
            simp only [crlf, List.cons.injEq] at same
            exact first (congrArg some same.2.1)
          simp only [eraseBreaks, if_neg other]

/-- All line breaks behind the text but one are erased. Behind a single byte the loop
    reads out of range. -/
theorem eraseBreaks_breaks (first : text.head? ≠ some lf) (n : Nat) :
    eraseBreaks ((List.replicate (n + 1) [lf, cr]).flatten ++ text) =
      if text.length = 1 then none else some (lf :: cr :: text) := by
  have twice : [cr, lf] = crlf := rfl
  induction n with
  | zero =>
      cases text with
      | nil => rfl
      | cons x text =>
          cases text with
          | nil => rfl
          | cons y text =>
              have other : [y, x] ≠ crlf := by
                intro same
                simp only [crlf, List.cons.injEq] at same
                exact first (congrArg some same.2.1)
              have long : (x :: y :: text).length ≠ 1 := by simp
              change eraseBreaks (lf :: cr :: x :: y :: text) = _
              simp only [if_neg long, eraseBreaks, if_pos twice, if_neg other]
  | succ n ih =>
      rw [List.replicate_succ, List.replicate_succ] at *
      change eraseBreaks (lf :: cr :: lf :: cr :: _) = _
      simp only [eraseBreaks, if_pos twice]
      exact ih

/-- A text that does not end in a line feed still does not with its breaks written out,
    and only a single byte becomes one. -/
theorem normalizeBreaks_last (clean : cr ∉ text) (last : text.getLast? ≠ some lf) :
    (normalizeBreaks text).reverse.head? ≠ some lf ∧
      ((normalizeBreaks text).reverse.length = 1 ↔ text.length = 1) := by
  induction text using List.reverseRecOn with
  | nil => simp [normalizeBreaks]
  | append_singleton front c _ =>
    have notLf : c ≠ lf := by simpa using last
    have notCr : c ≠ cr := by
      rintro rfl
      exact clean (by simp)
    have only : normalizeBreaks [c] = [c] := by simp [normalizeBreaks, notLf, notCr]
    rw [normalizeBreaks_append, only]
    refine ⟨by simpa using notLf, ?_⟩
    cases front with
    | nil => simp [normalizeBreaks]
    | cons d front =>
        have notCr' : d ≠ cr := by
          rintro rfl
          exact clean (by simp)
        have positive : 0 < (normalizeBreaks (d :: front)).length := by
          simp only [normalizeBreaks, List.flatMap_cons, if_neg notCr', List.length_append]
          split <;> simp [crlf]
        simp only [List.length_reverse, List.length_append, List.length_cons, List.length_nil]
        omega

/-- What the function returns: the content and a line break, unless the content is a
    single byte and something comes behind it. -/
theorem canonicalizeBodyRelaxed_eq (body : Bytes) :
    canonicalizeBodyRelaxed body =
      if (content body).length = 1 ∧ withoutCr body ≠ content body then none
      else some (normalizeBreaks (content body) ++ crlf) := by
  obtain ⟨n, split⟩ := withoutCr_split body
  obtain ⟨first, single⟩ := normalizeBreaks_last content_clean (@content_last body)
  rw [canonicalizeBodyRelaxed, ← normalizeBreaks_withoutCr, split, normalizeBreaks_append,
    List.reverse_append, normalizeBreaks_replicate]
  cases n with
  | zero =>
      have unbroken : (normalizeBreaks (content body)).reverse.take 2 ≠ crlf.reverse := by
        intro same
        apply first
        have taken := congrArg List.head? same
        rwa [List.head?_take] at taken
      rw [List.replicate_zero, List.flatten_nil, List.nil_append, eraseBreaks_plain first]
      simp [unbroken]
  | succ n =>
      have broken : content body ++ List.replicate (n + 1) lf ≠ content body := by simp
      rw [eraseBreaks_breaks first n]
      simp only [single, broken, ne_eq, not_false_eq_true, and_true]
      split
      · rfl
      · simp [crlf]

/-! ## Applying the function twice -/

/-- The text ends with a line break, and with two only if it is nothing but these. -/
def EndsOnce (text : Bytes) : Prop :=
  crlf <:+ text ∧ (crlf ++ crlf <:+ text → text = crlf ++ crlf)

/-- The function returns a text that ends once, and returns it again for itself. -/
def Stable (body : Bytes) : Prop :=
  ∃ canon, canonicalizeBodyRelaxed body = some canon ∧ EndsOnce canon ∧
    canonicalizeBodyRelaxed canon = some canon

theorem endsOnce_canonical : EndsOnce (normalizeBreaks (content body) ++ crlf) := by
  refine ⟨List.suffix_append _ _, ?_⟩
  rintro ⟨before, same⟩
  rw [← List.append_assoc] at same
  have ends := List.append_cancel_right same
  have first := (normalizeBreaks_last content_clean (@content_last body)).1
  rw [← ends] at first
  simp [crlf] at first

theorem content_canonical :
    content (normalizeBreaks (content body) ++ crlf) = content body ∧
      withoutCr (normalizeBreaks (content body) ++ crlf) ≠ content body := by
  have plain : withoutCr (normalizeBreaks (content body) ++ crlf) =
      content body ++ List.replicate 1 lf := by
    have parts := @List.filter_append _ (· != cr) (normalizeBreaks (content body)) crlf
    rw [← withoutCr, ← withoutCr, withoutCr_normalizeBreaks content_clean] at parts
    exact parts
  exact ⟨content_eq content_last plain, by simp [plain]⟩

/-- A body is canonicalized, to a text that ends once and is canonicalized to itself, if
    and only if its content is not a single byte. -/
theorem canonical_body_stable_iff (body : Bytes) : Stable body ↔ (content body).length ≠ 1 := by
  obtain ⟨same, broken⟩ := @content_canonical body
  constructor
  · rintro ⟨canon, returned, -, again⟩ single
    rw [canonicalizeBodyRelaxed_eq] at returned
    split at returned
    · cases returned
    · -- what is returned has the single byte and a line break behind it
      obtain rfl := Option.some.inj returned
      rw [canonicalizeBodyRelaxed_eq, same, if_pos ⟨single, broken⟩] at again
      cases again
  · intro several
    refine ⟨_, by rw [canonicalizeBodyRelaxed_eq, if_neg fun both => several both.1],
      endsOnce_canonical, ?_⟩
    rw [canonicalizeBodyRelaxed_eq, same, if_neg fun both => several both.1]

/-- A line of a single letter is not canonicalized. -/
theorem single_letter_throws : canonicalizeBodyRelaxed (ascii "x\n") = none ∧ ¬ Stable (ascii "x\n") := by
  have throws : canonicalizeBodyRelaxed (ascii "x\n") = none := rfl
  refine ⟨throws, ?_⟩
  rintro ⟨canon, returned, -⟩
  rw [throws] at returned
  cases returned

end Breaks

/-! ## White space -/

/-- No tab, no two spaces one after the other, and no space at the end. -/
structure Reduced (line : Bytes) : Prop where
  tabless : tab ∉ line
  single : line.IsChain fun c d => ¬ (c = space ∧ d = space)
  trimmed : line.getLast? ≠ some space

/-- A line without the white space at its end, and with one space for each run of it. -/
def relaxedLine (line : Bytes) : Bytes := compressWsp false (line.rdropWhile isWsp)

section WhiteSpace

variable {s : Bytes} {c : UInt8} {inWsp : Bool}

theorem not_isWsp (plain : isWsp c = false) : c ≠ space ∧ c ≠ tab := by
  simpa [isWsp] using plain

theorem compressWsp_head : (compressWsp true s).head? ≠ some space := by
  induction s with
  | nil => simp [compressWsp]
  | cons c s ih =>
      cases white : isWsp c with
      | true => simpa [compressWsp, white] using ih
      | false => simpa [compressWsp, white] using (not_isWsp white).1

theorem compressWsp_tabless : tab ∉ compressWsp inWsp s := by
  induction s generalizing inWsp with
  | nil => simp [compressWsp]
  | cons c s ih =>
      have isSpace : tab ≠ space := by decide
      cases white : isWsp c with
      | true => cases inWsp <;> simp [compressWsp, white, ih, isSpace]
      | false => simp [compressWsp, white, ih, (not_isWsp white).2.symm]

theorem compressWsp_single :
    (compressWsp inWsp s).IsChain fun c d => ¬ (c = space ∧ d = space) := by
  induction s generalizing inWsp with
  | nil => exact .nil
  | cons c s ih =>
      cases white : isWsp c with
      | true =>
          cases inWsp with
          | true => simpa [compressWsp, white] using ih
          | false =>
              have later : (space :: compressWsp true s).IsChain
                  fun c d => ¬ (c = space ∧ d = space) := by
                refine List.IsChain.cons ih ?_
                rintro d first ⟨-, rfl⟩
                exact compressWsp_head first
              simpa [compressWsp, white] using later
      | false =>
          have later : (c :: compressWsp false s).IsChain fun c d => ¬ (c = space ∧ d = space) :=
            List.IsChain.cons ih fun d _ both => (not_isWsp white).1 both.1
          simpa [compressWsp, white] using later

theorem compressWsp_concat (plain : isWsp c = false) :
    compressWsp inWsp (s ++ [c]) = compressWsp inWsp s ++ [c] := by
  induction s generalizing inWsp with
  | nil => simp [compressWsp, plain]
  | cons d s ih =>
      cases white : isWsp d with
      | true => cases inWsp <;> simp [compressWsp, white, ih]
      | false => simp [compressWsp, white, ih]

theorem compressWsp_reduced (tabless : tab ∉ s)
    (single : s.IsChain fun c d => ¬ (c = space ∧ d = space))
    (first : inWsp = true → s.head? ≠ some space) : compressWsp inWsp s = s := by
  induction s generalizing inWsp with
  | nil => rfl
  | cons c s ih =>
      obtain ⟨notTab, later⟩ := List.ne_and_not_mem_of_not_mem_cons tabless
      obtain ⟨next, chained⟩ := List.isChain_cons.mp single
      cases white : isWsp c with
      | true =>
          obtain rfl : c = space := by
            rcases (by simpa [isWsp] using white : c = space ∨ c = tab) with isSpace | isTab
            · exact isSpace
            · exact absurd isTab.symm notTab
          have outside : inWsp = false := by
            cases inWsp with
            | true => exact absurd rfl (first rfl)
            | false => rfl
          have rest := @ih true later chained fun _ isSpace => next space isSpace ⟨rfl, rfl⟩
          simp [compressWsp, white, outside, rest]
      | false =>
          have rest := @ih false later chained fun inside => absurd inside Bool.false_ne_true
          simp [compressWsp, white, rest]

theorem relaxedLine_reduced (line : Bytes) : Reduced (relaxedLine line) where
  tabless := compressWsp_tabless
  single := compressWsp_single
  trimmed := by
    rw [relaxedLine]
    rcases List.eq_nil_or_concat (line.rdropWhile isWsp) with empty | ⟨front, c, split⟩
    · simp [empty, compressWsp]
    · have nonempty : line.rdropWhile isWsp ≠ [] := by simp [split]
      have stops := List.rdropWhile_last_not isWsp line nonempty
      have plain : isWsp c = false := by simpa [split] using stops
      rw [split, List.concat_eq_append, compressWsp_concat plain]
      simpa using (not_isWsp plain).1

theorem relaxedLine_eq {line : Bytes} (reduced : Reduced line) : relaxedLine line = line := by
  have whole : line.rdropWhile isWsp = line := by
    rw [List.rdropWhile_eq_self_iff]
    intro nonempty white
    have last := List.getLast?_eq_some_getLast nonempty
    rcases (by simpa [isWsp] using white : line.getLast nonempty = space ∨ _ = tab) with
      isSpace | isTab
    · exact reduced.trimmed (isSpace ▸ last)
    · exact reduced.tabless (isTab ▸ List.getLast_mem nonempty)
  rw [relaxedLine, whole]
  exact compressWsp_reduced reduced.tabless reduced.single fun inside =>
    absurd inside Bool.false_ne_true

theorem reduced_nil : Reduced [] := ⟨by simp, .nil, by simp⟩

end WhiteSpace

/-! ## The form of a body -/

/-- What stands between two line ends. -/
abbrev LineText := {text : Bytes // cr ∉ text ∧ lf ∉ text}

/-- A line with its end, which is CRLF or LF. -/
structure BodyLine where
  text : LineText
  lfOnly : Bool

def BodyLine.raw (line : BodyLine) : Bytes := line.text ++ if line.lfOnly then [lf] else crlf

/-- A body of these lines; what is behind the last line end may be empty. -/
def bodyOf (lines : List BodyLine) (last : LineText) : Bytes :=
  lines.flatMap BodyLine.raw ++ last

/-- The texts of the lines. -/
def textsOf (lines : List BodyLine) (last : LineText) : List Bytes :=
  lines.map (fun line => line.text.val) ++ if last.val = [] then [] else [last.val]

/-- The relaxed form of a body: each line reduced, none of the empty lines at the end, and
    every line ended by CRLF. -/
def rfcBody (lines : List Bytes) : Bytes :=
  crlfLines ((lines.map relaxedLine).rdropWhile (·.isEmpty))

section Form

variable {lines : List BodyLine} {last : LineText} {texts : List Bytes} {canon : Bytes}

theorem textsOf_clean {text : Bytes} (member : text ∈ textsOf lines last) :
    cr ∉ text ∧ lf ∉ text := by
  rcases List.mem_append.mp member with ended | open_
  · obtain ⟨line, _, rfl⟩ := List.mem_map.mp ended
    exact line.text.property
  · split at open_
    · cases open_
    · obtain rfl := List.mem_singleton.mp open_
      exact last.property

theorem rdropWhile_lines (clean : ∀ text ∈ texts, lf ∉ text) :
    (texts.flatMap (· ++ [lf])).rdropWhile (· == lf) =
      ((texts.rdropWhile (·.isEmpty)).flatMap (· ++ [lf])).dropLast := by
  induction texts using List.reverseRecOn with
  | nil => rfl
  | append_singleton texts text ih =>
    have earlier := ih fun other there => clean other (List.mem_append_left _ there)
    rw [List.flatMap_append, List.flatMap_singleton, ← List.append_assoc,
      List.rdropWhile_concat_pos _ _ _ (by simp)]
    rcases List.eq_nil_or_concat text with rfl | ⟨front, c, rfl⟩
    · rw [List.append_nil, List.rdropWhile_concat_pos _ _ _ rfl]
      exact earlier
    · have plain : ¬ (c == lf) = true := by
        intro isLf
        apply clean _ (List.mem_append_right _ (List.mem_singleton_self _))
        simp [eq_of_beq isLf]
      have nonempty : ¬ (front ++ [c]).isEmpty = true := by simp
      rw [List.concat_eq_append, ← List.append_assoc, List.rdropWhile_concat_neg (· == lf) _ _ plain,
        @List.rdropWhile_concat_neg Bytes (·.isEmpty) _ _ nonempty, List.flatMap_append]
      simp [← List.append_assoc]

theorem withoutCr_clean {text : Bytes} (clean : cr ∉ text) : withoutCr text = text := by
  rw [withoutCr, List.filter_eq_self]
  exact bne_of_not_mem clean

theorem withoutCr_append (s t : Bytes) : withoutCr (s ++ t) = withoutCr s ++ withoutCr t :=
  List.filter_append ..

theorem withoutCr_lines (lines : List BodyLine) :
    withoutCr (lines.flatMap BodyLine.raw) = (lines.map (fun line => line.text.val)).flatMap (· ++ [lf]) := by
  induction lines with
  | nil => rfl
  | cons line lines ih =>
      have ended : withoutCr line.raw = line.text ++ [lf] := by
        rw [BodyLine.raw, withoutCr_append, withoutCr_clean line.text.property.1]
        split <;> rfl
      rw [List.flatMap_cons, withoutCr_append, ended, ih, List.map_cons, List.flatMap_cons]

theorem content_bodyOf (lines : List BodyLine) (last : LineText) :
    content (bodyOf lines last) = ((textsOf lines last).flatMap (· ++ [lf])).rdropWhile (· == lf) := by
  rw [content, bodyOf, withoutCr_append, withoutCr_lines, withoutCr_clean last.property.1, textsOf]
  split
  · rename_i empty
    rw [empty, List.append_nil, List.append_nil]
  · rw [List.flatMap_append, List.flatMap_singleton, ← List.append_assoc,
      List.rdropWhile_concat_pos _ _ _ (by simp)]

theorem normalizeBreaks_clean {text : Bytes} (clean : cr ∉ text ∧ lf ∉ text) :
    normalizeBreaks text = text := by
  induction text with
  | nil => rfl
  | cons c text ih =>
      obtain ⟨notCr, cleanCr⟩ := List.ne_and_not_mem_of_not_mem_cons clean.1
      obtain ⟨notLf, cleanLf⟩ := List.ne_and_not_mem_of_not_mem_cons clean.2
      have rest := ih ⟨cleanCr, cleanLf⟩
      simp only [normalizeBreaks, List.flatMap_cons] at rest ⊢
      rw [rest, if_neg notCr.symm, if_neg notLf.symm, List.singleton_append]

theorem normalizeBreaks_lines (clean : ∀ text ∈ texts, cr ∉ text ∧ lf ∉ text) :
    normalizeBreaks (texts.flatMap (· ++ [lf])) = crlfLines texts := by
  induction texts with
  | nil => rfl
  | cons text texts ih =>
      rw [List.flatMap_cons, normalizeBreaks_append, normalizeBreaks_append,
        normalizeBreaks_clean (clean text List.mem_cons_self),
        ih fun other there => clean other (List.mem_cons_of_mem text there)]
      rfl

/-- What is returned are the lines up to the last that is not empty, or an empty line
    when there is none. -/
theorem canonicalizeBodyRelaxed_lines
    (returned : canonicalizeBodyRelaxed (bodyOf lines last) = some canon) :
    canon = crlfLines (if (textsOf lines last).rdropWhile (·.isEmpty) = [] then [[]]
      else (textsOf lines last).rdropWhile (·.isEmpty)) := by
  have clean : ∀ text ∈ (textsOf lines last).rdropWhile (·.isEmpty), cr ∉ text ∧ lf ∉ text :=
    fun text member => textsOf_clean ((List.rdropWhile_prefix _ _).subset member)
  rw [canonicalizeBodyRelaxed_eq] at returned
  split at returned
  · cases returned
  obtain rfl := Option.some.inj returned
  rw [content_bodyOf, rdropWhile_lines fun text member => (textsOf_clean member).2]
  generalize (textsOf lines last).rdropWhile (·.isEmpty) = kept at clean
  split
  · rename_i none_
    rw [none_]
    rfl
  · rename_i some_
    obtain ⟨front, text, rfl⟩ := (List.eq_nil_or_concat kept).resolve_left some_
    have whole := normalizeBreaks_lines clean
    rw [List.concat_eq_append, List.flatMap_append, List.flatMap_singleton, ← List.append_assoc]
      at whole ⊢
    rw [List.dropLast_concat, ← whole, normalizeBreaks_append _ [lf]]
    rfl

theorem crlfLines_injective {others : List Bytes} (clean : ∀ text ∈ texts, lf ∉ text)
    (clean' : ∀ text ∈ others, lf ∉ text) (same : crlfLines texts = crlfLines others) :
    texts = others := by
  have mapped : texts.map (· ++ [cr]) = others.map (· ++ [cr]) := by
    rw [← getlines_crlfLines clean, same, getlines_crlfLines clean']
  exact List.map_injective_iff.mpr (fun _ _ => List.append_cancel_right) mapped

theorem relaxedLine_clean {text : Bytes} (clean : lf ∉ text) : lf ∉ relaxedLine text := by
  intro member
  rcases mem_compressWsp member with isSpace | inside
  · cases isSpace
  · exact clean ((List.rdropWhile_prefix _ _).subset inside)

/-- What is returned is the relaxed form of the body if and only if the body has a line
    that is not empty, and every line is reduced already. -/
theorem relaxed_body_iff (returned : canonicalizeBodyRelaxed (bodyOf lines last) = some canon) :
    canon = rfcBody (textsOf lines last) ↔
      (∃ text ∈ textsOf lines last, text ≠ []) ∧ ∀ text ∈ textsOf lines last, Reduced text := by
  have clean : ∀ text ∈ textsOf lines last, lf ∉ text := fun text member => (textsOf_clean member).2
  rw [canonicalizeBodyRelaxed_lines returned, rfcBody]
  generalize textsOf lines last = texts at clean
  have someKept : texts.rdropWhile (·.isEmpty) ≠ [] ↔ ∃ text ∈ texts, text ≠ [] := by
    simp [List.rdropWhile_eq_nil_iff]
  constructor
  · intro same
    have lines := crlfLines_injective ?_ ?_ same
    · split at lines
      · -- the form of a body never ends with an empty line
        have nonempty : (texts.map relaxedLine).rdropWhile (·.isEmpty) ≠ [] := by simp [← lines]
        have ends := List.rdropWhile_last_not _ _ nonempty
        simp [← lines] at ends
      · rename_i some_
        refine ⟨someKept.mp some_, ?_⟩
        intro text member
        rw [← List.rdropWhile_append_rtakeWhile (p := (·.isEmpty)) (l := texts)] at member
        rcases List.mem_append.mp member with kept | dropped
        · rw [lines] at kept
          obtain ⟨line, -, rfl⟩ := List.mem_map.mp ((List.rdropWhile_prefix _ _).subset kept)
          exact relaxedLine_reduced line
        · obtain rfl := List.isEmpty_iff.mp (List.mem_rtakeWhile_imp dropped)
          exact reduced_nil
    · intro text member
      split at member
      · simp [List.mem_singleton.mp member]
      · exact clean text ((List.rdropWhile_prefix _ _).subset member)
    · intro text member
      obtain ⟨line, inTexts, rfl⟩ := List.mem_map.mp ((List.rdropWhile_prefix _ _).subset member)
      exact relaxedLine_clean (clean line inTexts)
  · intro ⟨some_, reduced⟩
    have whole : texts.map relaxedLine = texts := by
      conv_rhs => rw [← List.map_id texts]
      exact List.map_congr_left fun text member => relaxedLine_eq (reduced text member)
    rw [if_neg (someKept.mpr some_), whole]

/-- A body of one line with a word in it is returned in its relaxed form. -/
theorem relaxed_body_iff_word :
    let line : LineText := ⟨ascii "hello", by decide⟩
    canonicalizeBodyRelaxed (bodyOf [⟨line, false⟩] ⟨[], by decide⟩) =
      some (rfcBody (textsOf [⟨line, false⟩] ⟨[], by decide⟩)) := by
  intro line
  have returned : canonicalizeBodyRelaxed (bodyOf [⟨line, false⟩] ⟨[], by decide⟩) =
      some (ascii "hello" ++ crlf) := rfl
  have reduced : Reduced (ascii "hello") := ⟨by decide, by decide, by decide⟩
  rw [returned, (relaxed_body_iff returned).mpr ⟨⟨_, List.mem_singleton_self _, by decide⟩, ?_⟩]
  intro text member
  obtain rfl := List.mem_singleton.mp member
  exact reduced

/-- White space at the end of a line is kept. -/
theorem trailing_space_kept :
    let line : LineText := ⟨ascii "hello ", by decide⟩
    canonicalizeBodyRelaxed (bodyOf [⟨line, false⟩] ⟨[], by decide⟩) = some (ascii "hello " ++ crlf) ∧
      rfcBody (textsOf [⟨line, false⟩] ⟨[], by decide⟩) = ascii "hello" ++ crlf ∧
      ascii "hello " ++ crlf ≠ ascii "hello" ++ crlf := by
  intro line
  exact ⟨rfl, rfl, by decide⟩

end Form

end EmailServer.AntiSpam.DkimCanon
