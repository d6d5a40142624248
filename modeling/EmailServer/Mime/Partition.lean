import EmailServer.Mime.MimeParser

/-! # The loop that cuts a part

The loop of `parsePart` goes from one occurrence of the delimiter to the next. It ends, it
uses every byte once, and what it cuts out is all that stands between two delimiters.
-/

namespace EmailServer.Mime

open Bytes (find upTo)

/-- `text.find(word, pos)` -/
def findFrom (word text : Bytes) (pos : Nat) : Option Nat :=
  (find word (text.drop pos)).map fun hit => text.length - hit.length

namespace MimeParser

/-- The loop, with the offsets of the source. It gives nothing if the fuel does not last. -/
def partLoop (delim content : Bytes) : Nat → Nat → Option (List Bytes)
  | 0, _ => none
  | fuel + 1, pos =>
      match findFrom delim content pos with
      | none => some []
      | some pos =>
          let start := pos + delim.length
          match findFrom delim content start with
          | none => some []
          | some stop =>
              (partLoop delim content fuel stop).map ((content.drop start).take (stop - start) :: ·)

end MimeParser

/-- `content` is `pre`, and then the pieces with a delimiter on both sides of each, and then
    `post`. There is no delimiter further to the left, or in a piece, or in `post`. -/
structure Delimited (delim content pre : Bytes) (pieces : List Bytes) (post : Bytes) : Prop where
  whole : content = pre ++ delim ++ pieces.flatMap (· ++ delim) ++ post
  leftmost : ∀ n < pre.length, ¬ delim <+: content.drop n
  pieces : ∀ piece ∈ pieces, ¬ delim <:+: piece
  last : ¬ delim <:+: post

open MimeParser

section Offsets

variable {word text hit : Bytes} {pos i : Nat}

theorem findFrom_some (nonempty : word ≠ []) (found : findFrom word text pos = some i) :
    find word (text.drop pos) = some (text.drop i) ∧ pos ≤ i ∧ i < text.length := by
  obtain ⟨hit, here, rfl⟩ := Option.map_eq_some_iff.mp found
  obtain ⟨starts, ends⟩ := Bytes.find_suffix here
  have positive := List.length_pos_iff.mpr nonempty
  have long := starts.length_le
  have short := ends.length_le
  rw [List.length_drop] at short
  refine ⟨?_, by omega, by omega⟩
  rw [here, ← List.suffix_iff_eq_drop.mp (ends.trans (List.drop_suffix pos text))]

theorem findFrom_none (absent : findFrom word text pos = none) : find word (text.drop pos) = none :=
  Option.map_eq_none_iff.mp absent

theorem slice_eq_upTo (found : find word (text.drop pos) = some (text.drop i)) (ordered : pos ≤ i)
    (inside : i < text.length) : (text.drop pos).take (i - pos) = upTo word (text.drop pos) := by
  have whole := Bytes.upTo_rest found
  have lengths := congrArg List.length whole
  simp only [List.length_append, List.length_drop] at lengths
  conv_lhs => rw [← whole]
  exact List.take_left' (by omega)

end Offsets

section Partition

variable {delim content : Bytes}

/-- With enough fuel the loop ends, with the texts that `childTexts` cuts out. -/
theorem partLoop_eq (nonempty : delim ≠ []) {fuel fuel' pos : Nat}
    (enough : content.length < fuel + pos) (enough' : content.length < fuel' + pos)
    (inside : pos ≤ content.length) :
    partLoop delim content fuel pos = some (childTexts delim fuel' (content.drop pos)) := by
  induction fuel generalizing fuel' pos with
  | zero => omega
  | succ fuel ih =>
      obtain ⟨fuel', rfl⟩ : ∃ n, fuel' = n + 1 := ⟨fuel' - 1, by omega⟩
      rw [partLoop, childTexts]
      cases first : findFrom delim content pos with
      | none => rw [findFrom_none first]
      | some here =>
          obtain ⟨found, ordered, _⟩ := findFrom_some nonempty first
          rw [found]
          dsimp only
          rw [List.drop_drop]
          cases second : findFrom delim content (here + delim.length) with
          | none => rw [findFrom_none second]
          | some stop =>
              obtain ⟨found', ordered', inside'⟩ := findFrom_some nonempty second
              have positive := List.length_pos_iff.mpr nonempty
              rw [found']
              dsimp only
              rw [slice_eq_upTo found' ordered' inside',
                @ih fuel' stop (by omega) (by omega) (by omega)]
              rfl

theorem childTexts_delimited (nonempty : delim ≠ []) {fuel : Nat} (enough : content.length < fuel)
    (starts : delim <+: content) :
    ∃ post, Delimited delim content [] (childTexts delim fuel content) post := by
  induction fuel generalizing content with
  | zero => omega
  | succ fuel ih =>
      obtain ⟨start, rfl⟩ := starts
      rw [childTexts, Bytes.find_start]
      dsimp only
      rw [List.drop_left]
      cases found : find delim start with
      | none =>
          exact ⟨start, by simp, by simp, by simp, Bytes.find_eq_none_iff.mp found⟩
      | some next =>
          have positive := List.length_pos_iff.mpr nonempty
          obtain ⟨again, ends⟩ := Bytes.find_suffix found
          have shorter : next.length < fuel := by
            have short := ends.length_le
            rw [List.length_append] at enough
            omega
          obtain ⟨post, later⟩ := ih shorter again
          have clean := Bytes.find_eq_none_iff.mp (Bytes.upTo_clean nonempty start)
          refine ⟨post, ?_, by simp, List.forall_mem_cons.mpr ⟨clean, later.pieces⟩, later.last⟩
          have whole := later.whole
          dsimp only
          conv_lhs => rw [← Bytes.upTo_rest found, whole]
          simp

theorem childTexts_skip (fuel : Nat) {hit : Bytes} (found : find delim content = some hit) :
    childTexts delim fuel content = childTexts delim fuel hit := by
  cases fuel with
  | zero => rfl
  | succ fuel =>
      obtain ⟨rest, rfl⟩ := (Bytes.find_suffix found).1
      rw [childTexts, childTexts, found, Bytes.find_start]

end Partition

/-- For every content and every boundary: the loop ends, the children are the parts that it has
    cut out, and with the delimiters and what stands around them these are the content. -/
theorem parsePart_partition {content boundary : Bytes} (nonempty : boundary ≠ []) :
    ∃ texts, (∀ fuel, content.length < fuel →
        partLoop (ascii "--" ++ boundary) content fuel 0 = some texts) ∧
      (parsePart content boundary).children = texts.map (parsePart · []) ∧
      (ascii "--" ++ boundary <:+: content →
        ∃ pre post, Delimited (ascii "--" ++ boundary) content pre texts post) ∧
      (¬ ascii "--" ++ boundary <:+: content → texts = []) := by
  have some_ : ascii "--" ++ boundary ≠ [] := List.append_ne_nil_of_right_ne_nil _ nonempty
  generalize named : ascii "--" ++ boundary = delim at some_
  refine ⟨childTexts delim (content.length + 1) content, ?_, ?_, ?_, ?_⟩
  · intro fuel enough
    exact partLoop_eq some_ enough (Nat.lt_succ_self _) (Nat.zero_le _)
  · have leaf : (parsePart · []) = parseLeaf := funext fun text => if_pos rfl
    rw [parsePart, if_neg nonempty, leaf, named]
  · intro inside
    obtain ⟨hit, found⟩ := Option.isSome_iff_exists.mp (Bytes.find_isSome_iff.mpr inside)
    obtain ⟨starts, ends⟩ := Bytes.find_suffix found
    have short := ends.length_le
    have enough : hit.length < content.length + 1 := by omega
    obtain ⟨post, delimited⟩ := childTexts_delimited some_ enough starts
    rw [childTexts_skip _ found]
    refine ⟨upTo delim content, post, ?_, fun n => Bytes.find_leftmost found, delimited.pieces,
      delimited.last⟩
    have whole := delimited.whole
    conv_lhs => rw [← Bytes.upTo_rest found, whole]
    simp
  · intro absent
    rw [childTexts, Bytes.find_eq_none_iff.mpr absent]

/-- One part, and text on both sides of the delimiters. -/
theorem part_delimited :
    ∃ pre post, Delimited (ascii "--b") (ascii "x--by--bz") pre [ascii "y"] post := by
  have named : ascii "--" ++ ascii "b" = ascii "--b" := rfl
  have run : partLoop (ascii "--b") (ascii "x--by--bz") 10 0 = some [ascii "y"] := by decide
  have inside : ascii "--b" <:+: ascii "x--by--bz" := ⟨ascii "x", ascii "y--bz", rfl⟩
  obtain ⟨texts, ended, -, cut, -⟩ := @parsePart_partition (ascii "x--by--bz") (ascii "b") (by decide)
  rw [named] at ended cut
  obtain rfl : [ascii "y"] = texts := Option.some.inj (run.symm.trans (ended 10 (by decide)))
  exact cut inside

end EmailServer.Mime
