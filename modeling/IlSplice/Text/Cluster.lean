import IlSplice.Text.Cluster.Classes

/-!
What a reader takes for one character.

A letter with its marks is one, as are a syllable written in parts, a flag, and a picture made of
pictures. `firstCluster` takes one from the start of a line; no character is lost.
-/

namespace IlSplice.Text

/-- How far the end of a cluster is on the way from one consonant to the next. -/
inductive Conjunct where
  | none
  /-- A consonant and its marks. -/
  | consonant
  /-- A consonant and marks, one of which joins it to the next consonant. -/
  | joined
  deriving DecidableEq, Repr

/-- The end of a cluster. -/
structure ClusterEnd where
  last : ClusterClass
  conjunct : Conjunct
  /-- A picture and its marks, with a joiner at most at the end. -/
  picture : Bool
  /-- A regional indicator without its partner. -/
  halfFlag : Bool
  deriving DecidableEq, Repr

namespace ClusterClass

/-- A mark on what is before it, which has no width. -/
def isMark : ClusterClass → Bool
  | .extender | .conjoiner | .disjoiner | .joiner => true
  | _ => false

/-- Two parts of one syllable. -/
def sharesSyllable : ClusterClass → ClusterClass → Bool
  | .leading, .leading | .leading, .vowel | .leading, .openSyllable | .leading, .closedSyllable
  | .openSyllable, .vowel | .openSyllable, .trailing
  | .vowel, .vowel | .vowel, .trailing
  | .closedSyllable, .trailing | .trailing, .trailing => true
  | _, _ => false

end ClusterClass

namespace ClusterEnd

/-- The end of a cluster of one character. -/
def single (c : ClusterClass) : ClusterEnd :=
  ⟨c, if c = .consonant then .consonant else .none, c = .pictograph, c = .regional⟩

/-- A character goes on with the cluster. -/
def joins (e : ClusterEnd) (c : ClusterClass) : Bool :=
  e.last ≠ .control && c ≠ .control &&
    (c.isMark || c = .spacingMark || e.last = .prepender || e.last.sharesSyllable c
      || c = .consonant && e.conjunct = .joined
      || c = .pictograph && e.picture && e.last = .joiner
      || c = .regional && e.halfFlag)

/-- The end of the cluster with one more character. -/
def push (e : ClusterEnd) (c : ClusterClass) : ClusterEnd :=
  if c = .extender || c = .joiner then
    ⟨c, e.conjunct, e.picture && e.last ≠ .joiner, false⟩
  else if c = .conjoiner then
    ⟨c, if e.conjunct = .none then .none else .joined, e.picture && e.last ≠ .joiner, false⟩
  else if c = .disjoiner then ⟨c, .none, e.picture && e.last ≠ .joiner, false⟩
  else if c = .regional then ⟨c, .none, false, !e.halfFlag⟩
  else single c

end ClusterEnd

/-- How many characters of a line belong to a cluster that ends where the line starts. They are
added to a number of characters that have been found before. -/
def clusterMore (e : ClusterEnd) (found : Nat) : List Char → Nat
  | [] => found
  | c :: rest =>
    if e.joins (clusterClass c) then clusterMore (e.push (clusterClass c)) (found + 1) rest
    else found

/-- The first cluster of a line that starts with `c`, and the rest of the line. -/
def firstCluster (c : Char) (rest : List Char) : List Char × List Char :=
  let more := clusterMore (.single (clusterClass c)) 0 rest
  (c :: rest.take more, rest.drop more)

/-- What is left behind the first cluster is shorter than the line. -/
theorem length_firstCluster_lt (c : Char) (rest : List Char) :
    (firstCluster c rest).2.length < (c :: rest).length := by
  simp only [firstCluster, List.length_drop, List.length_cons]
  omega

end IlSplice.Text
