import IlSplice.Text.Cluster
import IlSplice.Text.Width

/-!
Lines that are broken to fit a width.

Words are put on a line while there is room. A word that is wider than a line fills the line that
it starts on and goes on on the next ones.
-/

namespace IlSplice.Text

/-- How many characters from the start of a line fit into a width, without parting a cluster. They
are added to a number of characters that fit before. -/
def fitting (width found : Nat) : List Char → Nat
  | [] => found
  | c :: rest =>
    let cluster := (firstCluster c rest).1
    let taken := columns (String.ofList cluster)
    if taken ≤ width then
      fitting (width - taken) (found + cluster.length) (firstCluster c rest).2
    else found
termination_by line => line.length
decreasing_by exact length_firstCluster_lt c rest

/-- Lines that are being filled with words. -/
structure Filling where
  /-- The lines that are full, the last one first. -/
  full : List String
  line : String
  /-- The columns of the line. -/
  used : Nat

namespace Filling

/-- No line is started. -/
def empty : Filling := ⟨[], "", 0⟩

/-- Ends the line. -/
def endLine (f : Filling) : Filling := ⟨f.line :: f.full, "", 0⟩

/-- A place of no more than this many columns is not used for another word. -/
def leastRoom : Nat := 2

/-- Ends the line if there is hardly room left. -/
def settle (f : Filling) (width : Nat) : Filling :=
  if width - leastRoom < f.used then f.endLine else f

/-- Starts a line with a word. A word that is too wide fills lines of its own, each with a
character at least. -/
def start (f : Filling) (width : Nat) (word : List Char) : Filling :=
  if width < columns (String.ofList word) then
    match word with
    | [] => f
    | c :: rest =>
      let more := fitting width 0 (c :: rest) - 1
      start ⟨String.ofList (c :: rest.take more) :: f.full, "", 0⟩ width (rest.drop more)
  else settle ⟨f.full, String.ofList word, columns (String.ofList word)⟩ width
termination_by word.length
decreasing_by
  rw [List.length_drop, List.length_cons]
  omega

/-- Adds a word, with a blank in front if it is not the first one of its line. -/
def add (width : Nat) (f : Filling) (word : String) : Filling :=
  if f.line.isEmpty then f.start width word.toList
  else
    let size := columns word
    let room := width - f.used - 1
    if f.used + 1 + size ≤ width then
      settle ⟨f.full, f.line ++ " " ++ word, f.used + 1 + size⟩ width
    else if size ≤ width || room ≤ leastRoom then f.endLine.start width word.toList
    else
      let first := fitting room 0 word.toList
      let line := f.line ++ " " ++ String.ofList (word.toList.take first)
      start ⟨line :: f.full, "", 0⟩ width (word.toList.drop first)

/-- All lines in order. -/
def lines (f : Filling) : List String :=
  (if f.line.isEmpty then f.full else f.line :: f.full).reverse

end Filling

/-- The lines into which a line is broken if it is wider than a width. -/
def wrapped (width : Nat) (line : String) : List String :=
  if columns line ≤ width then [line]
  else ((line.splitOn " ").foldl (Filling.add width) .empty).lines

end IlSplice.Text
