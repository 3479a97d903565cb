import MiniLisp.Text.BreakClass

/-!
# Clusters: what a reader takes for one letter

A text is cut into extended grapheme clusters, by the rules of the Unicode standard on the classes
of its characters. This file fixes:

* `goesOn`: whether a cluster goes on with the next character. It does behind a carriage return with
  a line feed; a line end or a control character otherwise stands alone; extending marks, joiners
  and spacing marks follow anything else, and anything follows a prepended mark;
* four rules look at more than two characters or at a pattern: Korean syllables (`joinsSyllable`),
  linked consonants (`joinsConjunct`), joined pictographs (`joinsPictograph`), and regional
  indicators in pairs (`joinsFlag`);
* `clusters`: the cut. What the rules look back at never reaches beyond the cluster under
  construction, so the cut needs no other memory, and nothing is lost (`flatten_clusters`).
-/

namespace MiniLisp.Text

/-! ## 1. Rules -/

namespace BreakClass

/-- Whether a character belongs to no other one: a line end or a control character. -/
def standsAlone : BreakClass → Bool
  | carriageReturn | lineFeed | control => true
  | _ => false

/-- Whether a character extends the one before it. -/
def isExtending : BreakClass → Bool
  | extending | linker | nonJoiner => true
  | _ => false

/-- Whether consonants are linked across a character. -/
def isTransparent : BreakClass → Bool
  | extending | linker | joiner => true
  | _ => false

/-- A Korean syllable is leading consonants, vowels and trailing consonants, in this order; a
    composed one counts as the parts it is composed of. -/
def joinsSyllable : BreakClass → BreakClass → Bool
  | leading, leading | leading, vowel | leading, syllable | leading, closedSyllable => true
  | syllable, vowel | syllable, trailing | vowel, vowel | vowel, trailing => true
  | closedSyllable, trailing | trailing, trailing => true
  | _, _ => false

end BreakClass

open BreakClass

/-- A consonant joins the one before it if a linker stands between them. -/
def joinsConjunct (before : List BreakClass) (next : BreakClass) : Bool :=
  next == consonant && (before.takeWhile isTransparent).contains linker
    && (before.dropWhile isTransparent).head? == some consonant

/-- A pictograph joins the one before it if a joiner stands between them, behind what extends the
    first. -/
def joinsPictograph : List BreakClass → BreakClass → Bool
  | joiner :: before, pictograph => (before.dropWhile isExtending).head? == some pictograph
  | _, _ => false

/-- Regional indicators join in pairs. -/
def joinsFlag (before : List BreakClass) (next : BreakClass) : Bool :=
  next == regional && (before.takeWhile (· == regional)).length % 2 == 1

/-- Whether a cluster goes on with the next character; `before` holds the classes of the cluster's
    characters, last first. -/
def goesOn (before : List BreakClass) (next : BreakClass) : Bool :=
  match before with
  | [] => true
  | last :: _ =>
    if last.standsAlone || next.standsAlone then last == carriageReturn && next == lineFeed
    else next.isExtending || next == joiner || next == spacing || last == prepended
      || last.joinsSyllable next || joinsConjunct before next || joinsPictograph before next
      || joinsFlag before next

/-! ## 2. The cut -/

/-- The clusters of what follows a cluster under construction: its characters and their classes,
    last first. -/
def clustersFrom (cluster : List Char) (before : List BreakClass) : List Char → List (List Char)
  | [] => if cluster = [] then [] else [cluster.reverse]
  | c :: cs =>
    let next := breakClass c
    if goesOn before next then clustersFrom (c :: cluster) (next :: before) cs
    else cluster.reverse :: clustersFrom [c] [next] cs

/-- The clusters of a text. -/
def clusters (cs : List Char) : List (List Char) := clustersFrom [] [] cs

theorem flatten_clustersFrom (cluster : List Char) (before : List BreakClass) (cs : List Char) :
    (clustersFrom cluster before cs).flatten = cluster.reverse ++ cs := by
  induction cs generalizing cluster before with
  | nil =>
    rw [clustersFrom]
    split
    · rename_i h
      simp [h]
    · simp
  | cons c cs ih =>
    simp only [clustersFrom]
    split
    · simp [ih]
    · simp [ih]

/-- The clusters make up the text. -/
@[simp] theorem flatten_clusters (cs : List Char) : (clusters cs).flatten = cs := by
  simp [clusters, flatten_clustersFrom]

/-- Each character of a cluster is one of the text. -/
theorem mem_of_mem_clusters {cs cluster : List Char} {c : Char} (h : cluster ∈ clusters cs)
    (hc : c ∈ cluster) : c ∈ cs := by
  rw [← flatten_clusters cs]
  exact List.mem_flatten.mpr ⟨cluster, h, hc⟩

example : (clusters "e\u0301\r\n\x08x".toList).map String.ofList =
    ["e\u0301", "\r\n", "\x08", "x"] := by decide +kernel
example : (clusters "👨\u200d👩👍🏽🇩🇪🇫".toList).map String.ofList =
    ["👨\u200d👩", "👍🏽", "🇩🇪", "🇫"] := by decide +kernel
example : (clusters "\u1112\u1161\u11ab한क\u094dक".toList).map String.ofList =
    ["\u1112\u1161\u11ab", "한", "क\u094dक"] := by decide +kernel

end MiniLisp.Text
