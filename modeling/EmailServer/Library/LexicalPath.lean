import Mathlib.Data.List.Basic
import Mathlib.Data.List.Infix
import Mathlib.Data.List.TakeWhile
import EmailServer.Library.Bytes

/-! # Lexical paths

The part of `std::filesystem::path` that never looks at a disk: parsing into
root name, root directory and components, `operator/`, `lexically_normal`,
`extension` and `stem`. The platform decides what separates components, what a
root name is and which roots are absolute.
-/

namespace EmailServer

/-- A parsed path. -/
structure FsPath where
  rootName : Bytes
  rootDir : Bool
  parts : List Bytes
  deriving DecidableEq

/-- The platform's path format. Letters, digits and dots form names on every
    platform. -/
structure PathSyntax where
  isSeparator : UInt8 → Bool
  /-- Split the root name off the front of a path. -/
  splitRootName : Bytes → Bytes × Bytes
  /-- Whether a root name with or without a root directory is absolute. -/
  isAbsolute : Bytes → Bool → Bool
  plain_separator : ∀ c, Bytes.isPlain c = true → isSeparator c = false
  plain_root : ∀ s, s.all Bytes.isPlain = true → splitRootName s = ([], s)
  split_whole : ∀ s, (splitRootName s).1 ++ (splitRootName s).2 = s
  /-- What ends plainly ends in a component, unless it is a root name that is
      absolute on its own. -/
  plain_ending : ∀ s ending, ending ≠ [] → ending.all Bytes.isPlain = true →
    ending <:+ (splitRootName (s ++ ending)).2 ∨
      (splitRootName (s ++ ending)).2 = [] ∧
        ∀ rootDir, isAbsolute (splitRootName (s ++ ending)).1 rootDir = true
  relative : isAbsolute [] false = false

namespace PathSyntax

private def notSlash (c : UInt8) : Bool := c != 47 && c != 92

private theorem notSlash_plain {c : UInt8} (plain : Bytes.isPlain c = true) : notSlash c = true := by
  have slash : c ≠ 47 := Bytes.isPlain_ne plain (by decide)
  have backslash : c ≠ 92 := Bytes.isPlain_ne plain (by decide)
  simp [notSlash, slash, backslash]

/-- Drive letters and `\\server` names; both slashes separate. -/
def windowsRoot : Bytes → Bytes × Bytes
  | letter :: colon :: rest =>
      if Bytes.isAlpha letter && colon == 58 then ([letter, colon], rest)
      else if !notSlash letter && !notSlash colon && rest.head?.any notSlash then
        (letter :: colon :: rest.takeWhile notSlash, rest.dropWhile notSlash)
      else ([], letter :: colon :: rest)
  | s => ([], s)

def windowsAbsolute (rootName : Bytes) (rootDir : Bool) : Bool :=
  match rootName with
  | [] => false
  | [_, _] => rootDir
  | _ => true

private theorem windowsRoot_plain {letter colon : UInt8} {rest : Bytes}
    (plain : Bytes.isPlain colon = true) :
    windowsRoot (letter :: colon :: rest) = ([], letter :: colon :: rest) := by
  have drive : colon ≠ 58 := Bytes.isPlain_ne plain (by decide)
  simp [windowsRoot, drive, notSlash_plain plain]

def windows : PathSyntax where
  isSeparator c := !notSlash c
  splitRootName := windowsRoot
  isAbsolute := windowsAbsolute
  plain_separator c plain := by rw [notSlash_plain plain]; rfl
  plain_root s plain := by
    match s with
    | [] | [_] => rfl
    | letter :: colon :: rest =>
        exact windowsRoot_plain (List.all_eq_true.mp plain colon (by simp))
  split_whole s := by
    match s with
    | [] | [_] => rfl
    | letter :: colon :: rest =>
        rw [windowsRoot]
        split
        · rfl
        split
        · exact congrArg (letter :: colon :: ·) (List.takeWhile_append_dropWhile)
        · rfl
  plain_ending s ending nonempty plain := by
    have names := List.all_eq_true.mp plain
    match s, ending with
    | [], [c] => exact .inl List.suffix_rfl
    | [], letter :: colon :: rest =>
        rw [List.nil_append, windowsRoot_plain (names colon (by simp))]
        exact .inl List.suffix_rfl
    | [letter], colon :: rest =>
        rw [List.singleton_append, windowsRoot_plain (names colon (by simp))]
        exact .inl (List.suffix_cons letter _)
    | letter :: colon :: front, ending =>
        have whole : ending <:+ letter :: colon :: (front ++ ending) :=
          List.suffix_append (letter :: colon :: front) ending
        rw [List.cons_append, List.cons_append, windowsRoot]
        split
        · exact .inl (List.suffix_append front ending)
        split
        · rename_i server
          rw [List.dropWhile_append]
          split
          · -- the name of a server up to the end
            refine .inr ⟨List.dropWhile_eq_nil_iff.mpr fun c member => notSlash_plain (names c member),
              fun rootDir => ?_⟩
            have named : (front ++ ending).head?.any notSlash = true := by
              simp only [Bool.and_eq_true] at server
              exact server.2
            cases start : front ++ ending with
            | nil => simp [start] at named
            | cons c rest =>
                rw [start] at named
                have first : notSlash c = true := by simpa using named
                simp [first, windowsAbsolute]
          · exact .inl (List.suffix_append _ ending)
        · exact .inl whole
  relative := rfl

/-- Only `/` separates, and there are no root names. -/
def posix : PathSyntax where
  isSeparator c := c == 47
  splitRootName s := ([], s)
  isAbsolute _ rootDir := rootDir
  plain_separator c plain := by
    have slash : c ≠ 47 := Bytes.isPlain_ne plain (by decide)
    simpa using slash
  plain_root _ _ := rfl
  split_whole _ := rfl
  plain_ending s ending _ _ := .inl (List.suffix_append s ending)
  relative := rfl

/-- The two path formats. -/
inductive Format where
  | windows
  | posix

def Format.toSyntax : Format → PathSyntax
  | .windows => PathSyntax.windows
  | .posix => PathSyntax.posix

variable (syn : PathSyntax)

def parse (s : Bytes) : FsPath :=
  let (rootName, rest) := syn.splitRootName s
  ⟨rootName, rest.head?.any syn.isSeparator,
    (Bytes.splitOn syn.isSeparator rest).filter (· ≠ [])⟩

/-- `operator/`: an absolute right-hand side replaces the left-hand side. -/
def append (p q : FsPath) : FsPath :=
  if syn.isAbsolute q.rootName q.rootDir || (q.rootName != [] && q.rootName != p.rootName) then q
  else if q.rootDir then ⟨p.rootName, true, q.parts⟩
  else ⟨p.rootName, p.rootDir || (p.parts == [] && syn.isAbsolute p.rootName false),
    p.parts ++ q.parts⟩

end PathSyntax

namespace FsPath

def dot : Bytes := ascii "."
def dotDot : Bytes := ascii ".."

/-- Walk one component further. The stack holds the components so far, last first. -/
def walk (rooted : Bool) (stack : List Bytes) (part : Bytes) : List Bytes :=
  if part = dot then stack
  else if part = dotDot then
    match stack with
    | [] => if rooted then [] else [dotDot]
    | top :: below => if top = dotDot then dotDot :: top :: below else below
  else part :: stack

def normalParts (rooted : Bool) (parts : List Bytes) : List Bytes :=
  (parts.foldl (walk rooted) []).reverse

/-- `lexically_normal`. -/
def normal (p : FsPath) : FsPath := { p with parts := normalParts p.rootDir p.parts }

/-- The same place or a place above: what remains to be walked from `top` is a
    list of names, without a step up. -/
def AtOrBelow (top p : FsPath) : Prop :=
  p.normal.rootName = top.normal.rootName ∧ p.normal.rootDir = top.normal.rootDir ∧
    ∃ rest, p.normal.parts = top.normal.parts ++ rest ∧ rest.head? ≠ some dotDot

/-- Properly inside `top`, after normalisation. -/
def StrictlyInside (top p : FsPath) : Prop :=
  AtOrBelow top p ∧ p.normal.parts ≠ top.normal.parts

instance (top p : FsPath) : Decidable (AtOrBelow top p) :=
  decidable_of_iff
    (p.normal.rootName = top.normal.rootName ∧ p.normal.rootDir = top.normal.rootDir ∧
      top.normal.parts <+: p.normal.parts ∧
      (p.normal.parts.drop top.normal.parts.length).head? ≠ some dotDot) (by
    constructor
    · rintro ⟨name, dir, ⟨rest, split⟩, head⟩
      rw [← split, List.drop_left] at head
      exact ⟨name, dir, rest, split.symm, head⟩
    · rintro ⟨name, dir, rest, split, head⟩
      refine ⟨name, dir, ⟨rest, split.symm⟩, ?_⟩
      rw [split, List.drop_left]
      exact head)

instance (top p : FsPath) : Decidable (StrictlyInside top p) :=
  inferInstanceAs (Decidable (_ ∧ _))

/-- A component that names an entry rather than a step. -/
def IsName (part : Bytes) : Prop := part ≠ dot ∧ part ≠ dotDot

/-- Walk into the entry `name` of `p`. -/
def child (p : FsPath) (name : Bytes) : FsPath := { p with parts := p.parts ++ [name] }

/-- The last component. -/
def filename (p : FsPath) : Bytes := p.parts.getLastD []

/-- The name that a path ends in: its last component, or a root name that stands alone. -/
def lastName (p : FsPath) : Bytes := if p.parts = [] then p.rootName else p.filename

/-- Everything but the last component. -/
def parent (p : FsPath) : FsPath := { p with parts := p.parts.dropLast }

@[simp] theorem child_filename (p : FsPath) (name : Bytes) : (p.child name).filename = name := by
  simp [child, filename]

@[simp] theorem child_lastName (p : FsPath) (name : Bytes) : (p.child name).lastName = name := by
  rw [lastName, if_neg (by simp [child]), child_filename]

@[simp] theorem child_parent (p : FsPath) (name : Bytes) : (p.child name).parent = p := by
  simp [child, parent]

theorem parent_child {p : FsPath} (parts : p.parts ≠ []) : p.parent.child p.filename = p := by
  have whole : p.parts.dropLast ++ [p.parts.getLastD []] = p.parts := by
    rw [List.getLastD_eq_getLast?, List.getLast?_eq_some_getLast parts, Option.getD_some,
      List.dropLast_append_getLast parts]
  simp only [parent, child, filename, whole]

theorem normalParts_append_name (rooted : Bool) (parts : List Bytes) {name : Bytes}
    (isName : IsName name) :
    normalParts rooted (parts ++ [name]) = normalParts rooted parts ++ [name] := by
  simp [normalParts, List.foldl_append, walk, isName.1, isName.2]

theorem child_normal (p : FsPath) {name : Bytes} (isName : IsName name) :
    (p.child name).normal = p.normal.child name := by
  simp only [child, normal, normalParts_append_name _ _ isName]

/-! ### Normal forms -/

/-- A walked stack holds names above, and steps up only at the bottom of a
    relative path. -/
def Walked (rooted : Bool) : List Bytes → Prop
  | [] => True
  | top :: below => top ≠ dot ∧ (top = dotDot → rooted = false ∧ ∀ part ∈ below, part = dotDot) ∧
      Walked rooted below

theorem Walked.walk {rooted : Bool} {stack : List Bytes} (walked : Walked rooted stack)
    (part : Bytes) : Walked rooted (walk rooted stack part) := by
  unfold FsPath.walk
  split
  · exact walked
  rename_i notDot
  split
  · cases stack with
    | nil =>
        cases rooted with
        | true => exact walked
        | false => exact ⟨by decide, by simp, trivial⟩
    | cons top below =>
        dsimp only
        split
        · rename_i up
          obtain ⟨relative, ups⟩ := walked.2.1 up
          refine ⟨by decide, fun _ => ⟨relative, fun part member => ?_⟩, walked⟩
          rcases List.mem_cons.mp member with rfl | member
          · exact up
          · exact ups part member
        · exact walked.2.2
  · rename_i name
    exact ⟨notDot, fun up => absurd up name, walked⟩

theorem Walked.again {rooted : Bool} {stack : List Bytes} (walked : Walked rooted stack) :
    stack.reverse.foldl (FsPath.walk rooted) [] = stack := by
  induction stack with
  | nil => rfl
  | cons top below ih =>
      obtain ⟨notDot, ups, walked⟩ := walked
      rw [List.reverse_cons, List.foldl_append, ih walked]
      by_cases up : top = dotDot
      · obtain ⟨rfl, all⟩ := ups up
        have notDot : dotDot ≠ dot := by decide
        cases below with
        | nil => simp [FsPath.walk, up, notDot]
        | cons next rest => simp [FsPath.walk, up, all next, notDot]
      · simp [FsPath.walk, notDot, up]

theorem normalParts_idem (rooted : Bool) (parts : List Bytes) :
    normalParts rooted (normalParts rooted parts) = normalParts rooted parts := by
  have walked : ∀ (parts stack : List Bytes), Walked rooted stack →
      Walked rooted (parts.foldl (walk rooted) stack) := by
    intro parts
    induction parts with
    | nil => exact fun _ walked => walked
    | cons part rest ih => exact fun stack walked => ih _ (walked.walk part)
  rw [normalParts, normalParts, (walked parts [] trivial).again]

/-- Normal forms are normal. -/
theorem normal_idem (p : FsPath) : p.normal.normal = p.normal := by
  simp only [normal, normalParts_idem]

theorem StrictlyInside.normal {top p : FsPath} (inside : StrictlyInside top p) :
    StrictlyInside top p.normal := by
  unfold StrictlyInside AtOrBelow at inside ⊢
  rw [normal_idem]
  exact inside

theorem AtOrBelow.refl (top : FsPath) : AtOrBelow top top :=
  ⟨rfl, rfl, [], (List.append_nil _).symm, by simp⟩

theorem AtOrBelow.child {top p : FsPath} (below : AtOrBelow top p) {name : Bytes}
    (isName : IsName name) : StrictlyInside top (p.child name) := by
  obtain ⟨rootName, rootDir, rest, parts, start⟩ := below
  have walked : (p.child name).normal.parts = top.normal.parts ++ (rest ++ [name]) := by
    rw [child_normal p isName, FsPath.child, parts, List.append_assoc]
  refine ⟨⟨?_, ?_, rest ++ [name], walked, ?_⟩, ?_⟩
  · rw [child_normal p isName]
    exact rootName
  · rw [child_normal p isName]
    exact rootDir
  · cases rest with
    | nil => simpa using isName.2
    | cons first rest => exact start
  · rw [walked]
    simp

/-- A step that is no name leads further up than `p` can go, or to a place on the way to `p`. -/
theorem child_step (p : FsPath) {name : Bytes} (step : ¬ IsName name) :
    (p.child name).normal.parts = p.normal.parts ++ [dotDot] ∨
      (p.child name).normal.parts <+: p.normal.parts := by
  have walked : (p.child name).normal.parts =
      (walk p.rootDir (p.parts.foldl (walk p.rootDir) []) name).reverse := by
    simp [child, normal, normalParts, List.foldl_append]
  have here : p.normal.parts = (p.parts.foldl (walk p.rootDir) []).reverse := rfl
  rw [walked, here]
  generalize p.parts.foldl (walk p.rootDir) [] = stack
  rw [IsName, not_and_or, not_not, not_not] at step
  rcases step with rfl | rfl
  · exact .inr (by simp [walk])
  · have up : dotDot ≠ dot := by decide
    cases stack with
    | nil => cases rooted : p.rootDir <;> simp [walk, up]
    | cons top below =>
        by_cases again : top = dotDot
        · exact .inl (by simp [walk, up, again])
        · exact .inr (by simp [walk, up, again])

theorem StrictlyInside.parent {top p : FsPath} {name : Bytes} (isName : IsName name)
    (inside : StrictlyInside top (p.child name)) : AtOrBelow top p := by
  obtain ⟨⟨rootName, rootDir, rest, parts, start⟩, strict⟩ := inside
  rw [child_normal p isName] at rootName rootDir parts strict
  rcases List.eq_nil_or_concat rest with rfl | ⟨front, last, rfl⟩
  · exact absurd (by simpa using parts) strict
  · have split : p.normal.parts ++ [name] = (top.normal.parts ++ front) ++ [last] := by
      simpa [FsPath.child] using parts
    have walked := List.append_inj_left' split rfl
    refine ⟨rootName, rootDir, front, walked, ?_⟩
    cases front with
    | nil => simp
    | cons first front => exact start

end FsPath

namespace PathSyntax

variable (syn : PathSyntax)

/-- It is a single component. -/
structure Names (s : Bytes) : Prop where
  nonempty : s ≠ []
  separator : ∀ c ∈ s, syn.isSeparator c = false
  root : syn.splitRootName s = ([], s)

theorem plain_names {s : Bytes} (nonempty : s ≠ []) (plain : s.all Bytes.isPlain = true) :
    syn.Names s where
  nonempty := nonempty
  separator c member := syn.plain_separator c (List.all_eq_true.mp plain c member)
  root := syn.plain_root s plain

theorem format_names (format : Format) {s : Bytes} (nonempty : s ≠ [])
    (clean : ∀ c ∈ s, c ≠ 47 ∧ c ≠ 92 ∧ c ≠ 58) : format.toSyntax.Names s := by
  cases format with
  | posix => exact ⟨nonempty, fun c member => beq_eq_false_iff_ne.mpr (clean c member).1, rfl⟩
  | windows =>
      refine ⟨nonempty, fun c member => ?_, ?_⟩
      · simp [Format.toSyntax, windows, notSlash, clean c member]
      · match s with
        | [] | [_] => rfl
        | letter :: colon :: rest =>
            have second := clean colon (by simp)
            simp [Format.toSyntax, windows, windowsRoot, notSlash, second]

theorem parse_name {s : Bytes} (names : syn.Names s) : syn.parse s = ⟨[], false, [s]⟩ := by
  have start : s.head?.any syn.isSeparator = false := by
    cases s with
    | nil => rfl
    | cons c rest => simpa using names.separator c (by simp)
  simp only [parse, names.root, Bytes.splitOn_whole names.separator, start]
  simp [names.nonempty]

theorem parse_plain {s : Bytes} (nonempty : s ≠ []) (plain : s.all Bytes.isPlain = true) :
    syn.parse s = ⟨[], false, [s]⟩ :=
  syn.parse_name (syn.plain_names nonempty plain)

/-- A path with a separator behind it: a server's name that stands alone gets its root. -/
def directory (p : FsPath) : FsPath := syn.append p (syn.parse [])

theorem parse_nil : syn.parse [] = ⟨[], false, []⟩ := by
  simp [parse, syn.plain_root [] rfl, Bytes.splitOn]

theorem append_name (p : FsPath) {s : Bytes} (names : syn.Names s) :
    syn.append p (syn.parse s) = (syn.directory p).child s := by
  simp [directory, parse_name syn names, parse_nil, append, syn.relative, FsPath.child]

theorem append_names {p : FsPath} (parts : p.parts ≠ []) {s : Bytes} (names : syn.Names s) :
    syn.append p (syn.parse s) = p.child s := by
  simp [parse_name syn names, append, syn.relative, parts, FsPath.child]

theorem append_plain {p : FsPath} (parts : p.parts ≠ []) {s : Bytes} (nonempty : s ≠ [])
    (plain : s.all Bytes.isPlain = true) : syn.append p (syn.parse s) = p.child s :=
  syn.append_names parts (syn.plain_names nonempty plain)

theorem append_ending (p : FsPath) (s : Bytes) {ending : Bytes} (nonempty : ending ≠ [])
    (plain : ending.all Bytes.isPlain = true) :
    ending <:+ (syn.append p (syn.parse (s ++ ending))).lastName := by
  have clean : ∀ c ∈ ending, syn.isSeparator c = false :=
    fun c member => syn.plain_separator c (List.all_eq_true.mp plain c member)
  rcases syn.plain_ending s ending nonempty plain with ⟨front, split⟩ | ⟨bare, absolute⟩
  · obtain ⟨pieces, last, cut, isEnding⟩ := Bytes.splitOn_ending front clean
    have named : last ≠ [] := by
      rintro rfl
      exact nonempty (List.suffix_nil.mp isEnding)
    have parsed : ∃ front, (syn.parse (s ++ ending)).parts = front ++ [last] := by
      simp only [parse, ← split, cut, List.filter_append]
      exact ⟨pieces.filter (· ≠ []), by simp [named]⟩
    obtain ⟨front, parsed⟩ := parsed
    unfold append
    split
    · simpa [FsPath.lastName, FsPath.filename, parsed] using isEnding
    split
    · simpa [FsPath.lastName, FsPath.filename, parsed] using isEnding
    · simpa [FsPath.lastName, FsPath.filename, parsed, ← List.append_assoc] using isEnding
  · have replaced : (syn.isAbsolute (syn.parse (s ++ ending)).rootName
        (syn.parse (s ++ ending)).rootDir) = true := by
      simp only [parse]
      exact absolute _
    have whole : (syn.splitRootName (s ++ ending)).1 = s ++ ending := by
      have both := syn.split_whole (s ++ ending)
      rwa [bare, List.append_nil] at both
    have parts : (syn.parse (s ++ ending)).parts = [] := by
      simp [parse, bare, Bytes.splitOn]
    simp only [append, replaced, Bool.true_or, if_true]
    rw [FsPath.lastName, if_pos parts]
    show ending <:+ (syn.splitRootName (s ++ ending)).1
    rw [whole]
    exact List.suffix_append s ending

end PathSyntax

/-! ## Extensions -/

namespace FileName

/-- The part of a file name before the last dot and the part after it. A name
    without a dot, with its only dot in front, and `..` have no extension. -/
def split (name : Bytes) : Bytes × Option Bytes :=
  let after := (name.reverse.takeWhile (· != Bytes.dot)).reverse
  let stem := name.take (name.length - after.length - 1)
  if name = FsPath.dotDot ∨ after.length = name.length ∨ stem = [] then (name, none)
  else (stem, some after)

def stem (name : Bytes) : Bytes := (split name).1

/-- `path::extension()`, with its dot. -/
def extension (name : Bytes) : Bytes :=
  match (split name).2 with
  | some after => Bytes.dot :: after
  | none => []

theorem split_last (stem : Bytes) {after : Bytes} (plain : Bytes.dot ∉ after) :
    split (stem ++ Bytes.dot :: after) =
      if stem ++ Bytes.dot :: after = FsPath.dotDot ∨ stem = []
      then (stem ++ Bytes.dot :: after, none) else (stem, some after) := by
  have tail : ((stem ++ Bytes.dot :: after).reverse.takeWhile (· != Bytes.dot)).reverse = after := by
    have clean : ∀ b ∈ after.reverse, (b != Bytes.dot) = true := by
      intro b member
      rw [bne_iff_ne]
      rintro rfl
      exact plain (List.mem_reverse.mp member)
    simp only [List.reverse_append, List.reverse_cons, List.append_assoc,
      List.takeWhile_append_of_pos clean, List.singleton_append]
    simp
  have shorter : after.length ≠ (stem ++ Bytes.dot :: after).length := by
    simp only [List.length_append, List.length_cons]
    omega
  have cut : (stem ++ Bytes.dot :: after).take
      ((stem ++ Bytes.dot :: after).length - after.length - 1) = stem := by
    have : (stem ++ Bytes.dot :: after).length - after.length - 1 = stem.length := by
      simp only [List.length_append, List.length_cons]
      omega
    rw [this, List.take_left]
  simp only [split, tail, cut, shorter, false_or]

theorem split_append {stem after : Bytes} (hasStem : stem ≠ []) (hasAfter : after ≠ [])
    (plain : Bytes.dot ∉ after) :
    split (stem ++ Bytes.dot :: after) = (stem, some after) := by
  have notUp : stem ++ Bytes.dot :: after ≠ FsPath.dotDot := by
    intro same
    have lengths := congrArg List.length same
    have up : FsPath.dotDot.length = 2 := by decide
    rw [up, List.length_append, List.length_cons] at lengths
    have := List.length_pos_iff.mpr hasStem
    have := List.length_pos_iff.mpr hasAfter
    omega
  rw [split_last stem plain, if_neg (not_or.mpr ⟨notUp, hasStem⟩)]

theorem stem_append {stem : Bytes} (after : Bytes) (hasStem : stem ≠ []) (hasAfter : after ≠ [])
    (plain : Bytes.dot ∉ after) : FileName.stem (stem ++ Bytes.dot :: after) = stem := by
  rw [FileName.stem, split_append hasStem hasAfter plain]

theorem extension_append {stem : Bytes} (after : Bytes) (hasStem : stem ≠ []) (hasAfter : after ≠ [])
    (plain : Bytes.dot ∉ after) :
    extension (stem ++ Bytes.dot :: after) = Bytes.dot :: after := by
  rw [extension, split_append hasStem hasAfter plain]

theorem stem_extension (name : Bytes) : stem name ++ extension name = name := by
  by_cases dotted : Bytes.dot ∈ name
  · obtain ⟨after, front, flipped, plain⟩ :=
      List.eq_append_cons_of_mem (List.mem_reverse.mpr dotted)
    obtain rfl : name = front.reverse ++ Bytes.dot :: after.reverse := by
      rw [← List.reverse_reverse name, flipped]
      simp
    have plain : Bytes.dot ∉ after.reverse := by simpa using plain
    rw [stem, extension, split_last front.reverse plain]
    split <;> simp
  · have all : name.reverse.takeWhile (· != Bytes.dot) = name.reverse := by
      rw [List.takeWhile_eq_self_iff]
      intro b member
      rw [bne_iff_ne]
      rintro rfl
      exact dotted (List.mem_reverse.mp member)
    simp [stem, extension, split, all]

end FileName

end EmailServer
