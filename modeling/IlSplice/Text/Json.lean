import IlSplice.Text.Hex

/-!
Values in JSON, written with one member or element a line.
-/

namespace IlSplice

/-- A value to write. -/
inductive Json where
  | number (n : Int)
  | text (s : String)
  | array (elements : List Json)
  | object (members : List (String × Json))

namespace Json

/-- A character inside quotes. -/
def escaped (c : Char) : String :=
  match c with
  | '"' => "\\\""
  | '\\' => "\\\\"
  | '\n' => "\\n"
  | '\r' => "\\r"
  | '\t' => "\\t"
  | '\x08' => "\\b"
  | '\x0c' => "\\f"
  | c => if c.toNat < 0x20 then "\\u" ++ Hex.padded 4 c.toNat else c.toString

/-- A text in quotes. -/
def quoted (s : String) : String :=
  "\"" ++ String.join (s.toList.map escaped) ++ "\""

/-- The items of an array or object between its brackets, each on a line of its own. -/
def block (opening closing : String) (depth : Nat) (items : List String) : String :=
  let indent := fun depth => "\n" ++ String.ofList (List.replicate (2 * depth) ' ')
  if items.isEmpty then opening ++ closing
  else
    opening ++ ",".intercalate (items.map (indent (depth + 1) ++ ·)) ++ indent depth ++ closing

mutual

/-- A value at a depth of nesting. -/
def renderAt (depth : Nat) : Json → String
  | .number n => toString n
  | .text s => quoted s
  | .array elements => block "[" "]" depth (renderElements (depth + 1) elements)
  | .object members => block "\x7b" "\x7d" depth (renderMembers (depth + 1) members)

/-- The elements of an array. -/
def renderElements (depth : Nat) : List Json → List String
  | [] => []
  | element :: rest => renderAt depth element :: renderElements depth rest

/-- The members of an object. -/
def renderMembers (depth : Nat) : List (String × Json) → List String
  | [] => []
  | (name, value) :: rest =>
    (quoted name ++ ": " ++ renderAt depth value) :: renderMembers depth rest

end

/-- The value as a text. -/
def render (value : Json) : String := renderAt 0 value

end Json

end IlSplice
