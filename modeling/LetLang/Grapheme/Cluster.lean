import LetLang.Grapheme.Class

/-!
# Grapheme clusters

A text is divided into extended grapheme clusters, which are what a reader takes
for single characters: a letter with its accents, a flag, a joined emoji, a
syllable.  Two neighbours belong to one cluster according to their classes and
to how the cluster so far ends.  Main statement: the clusters, put together
again, are the text.
-/

namespace LetLang

/-- How far the end of a text has come towards an Indic conjunct. -/
inductive Grapheme.Conjunct where
  | none
  /-- A consonant, maybe with marks. -/
  | consonant
  /-- A consonant, maybe with marks, and a linker among them. -/
  | linked
deriving DecidableEq, Repr

/-- How far the end of a text has come towards a joined pictograph. -/
inductive Grapheme.Joining where
  | none
  /-- A pictograph, maybe with marks. -/
  | pictograph
  /-- A pictograph, maybe with marks, and a joiner behind it. -/
  | joined
deriving DecidableEq, Repr

/-- What the end of a cluster says about the character after it. -/
structure Grapheme.Ending where
  /-- The class of the last character. -/
  last : GraphemeClass
  /-- The conjunct at the end. -/
  conjunct : Grapheme.Conjunct
  /-- The pictograph at the end. -/
  joining : Grapheme.Joining
  /-- Whether the end is the first half of a flag. -/
  halfFlag : Bool
deriving DecidableEq, Repr

namespace Grapheme

/-- The conjunct after another character. -/
def Conjunct.next : Conjunct → GraphemeClass → Conjunct
  | _, .consonant => consonant
  | none, .linker => none
  | _, .linker => linked
  | state, .extend | state, .joiner => state
  | _, _ => none

/-- The pictograph after another character. -/
def Joining.next : Joining → GraphemeClass → Joining
  | _, .pictograph => pictograph
  | pictograph, .joiner => joined
  | pictograph, kind => if kind.isExtend then pictograph else none
  | _, _ => none

namespace Ending

/-- The end of a cluster after another character. -/
def next (e : Ending) (kind : GraphemeClass) : Ending :=
  ⟨kind, e.conjunct.next kind, e.joining.next kind,
    kind = .regional ∧ ¬ e.halfFlag⟩

/-- The end of a cluster of one character. -/
def start (kind : GraphemeClass) : Ending :=
  next ⟨.other, .none, .none, false⟩ kind

/-- Whether two parts belong to one Hangul syllable. -/
def joinsHangul : GraphemeClass → GraphemeClass → Bool
  | .hangulL, .hangulL | .hangulL, .hangulV => true
  | .hangulL, .hangulLV | .hangulL, .hangulLVT => true
  | .hangulLV, .hangulV | .hangulLV, .hangulT => true
  | .hangulV, .hangulV | .hangulV, .hangulT => true
  | .hangulLVT, .hangulT | .hangulT, .hangulT => true
  | _, _ => false

/-- Whether the next character still belongs to the cluster. -/
def joins (e : Ending) (kind : GraphemeClass) : Bool :=
  if e.last = .cr ∧ kind = .lf then true
  else if e.last.isBreak ∨ kind.isBreak then false
  else
    joinsHangul e.last kind || kind.isExtend || kind == .joiner ||
      kind == .spacingMark || e.last == .leadingMark ||
      (kind == .consonant && e.conjunct == .linked) ||
      (kind == .pictograph && e.joining == .joined) ||
      (kind == .regional && e.halfFlag)

end Ending

/-- The clusters of a text that goes on after a given beginning of a cluster. -/
def clustersFrom (e : Ending) (cluster : List Char) : List Char → List (List Char)
  | [] => [cluster]
  | c :: rest =>
      let kind := GraphemeClass.ofChar c
      if e.joins kind then
        clustersFrom (e.next kind) (cluster ++ [c]) rest
      else
        cluster :: clustersFrom (.start kind) [c] rest

/-- The extended grapheme clusters of a text. -/
def clusters : List Char → List (List Char)
  | [] => []
  | c :: rest => clustersFrom (.start (.ofChar c)) [c] rest

theorem flatten_clustersFrom (e : Ending) (cluster text : List Char) :
    (clustersFrom e cluster text).flatten = cluster ++ text := by
  induction text generalizing e cluster with
  | nil => simp [clustersFrom]
  | cons c rest ih =>
    simp only [clustersFrom]
    split
    · rw [ih, List.append_assoc]
      rfl
    · rw [List.flatten_cons, ih]
      rfl

/-- The clusters of a text, put together again, are the text. -/
theorem flatten_clusters (text : List Char) : (clusters text).flatten = text := by
  cases text with
  | nil => rfl
  | cons c rest => exact flatten_clustersFrom _ _ _

end Grapheme

end LetLang
