import IlSplice.Text.Width.Onset

/-!
The number of terminal columns that a line of text takes.

Most characters have a width of their own, `ownColumns`. Others combine with the text behind them,
so the width of a line is found from its end: `Context` is what is known of the text behind a
character, and `Context.before` puts the character in front of it.
-/

namespace IlSplice.Text

/-- The columns of a character that does not combine with others. -/
def ownColumns (c : Char) : Nat :=
  if c.toNat ≤ 0xa0 then 1
  else if c = '\u17d8' then 3
  else if weightless.covers c then 0
  else if wide.covers c then 2
  else 1

/-- The characters that choose between the forms of the one before them. -/
inductive Selector where
  /-- The form of text. -/
  | text
  /-- The form of a picture. -/
  | picture
  /-- The form of a quotation mark that is as wide as an ideograph. -/
  | wideQuote
  deriving DecidableEq, Repr

/-- The form that a character chooses. -/
def Selector.ofChar? (c : Char) : Option Selector :=
  if c = '\ufe0e' then some .text
  else if c = '\ufe0f' then some .picture
  else if c = '\ufe01' then some .wideQuote
  else none

/-- A quotation mark with a wide form. -/
def isCurlyQuote (c : Char) : Bool := c = '‘' || c = '’' || c = '“' || c = '”'

/-- What is known of the text behind a character. -/
structure Context where
  onset : Onset
  /-- The text starts with these selectors, but for parts of a ligature. -/
  selectors : List Selector
  deriving DecidableEq, Repr

namespace Context

/-- Text that does not combine with the character before it. -/
def plain : Context := ⟨.plain, []⟩

/-- The text is known to start with a selector. -/
def has (t : Context) (s : Selector) : Bool := t.selectors.contains s

/-- The text without a selector that did not find its character. -/
def drop (t : Context) (s : Selector) : Context :=
  { t with selectors := t.selectors.filter (· ≠ s) }

/-- The text behind a selector. A ligature may start behind it, and so may a joined picture behind
the first one that asks for a picture. -/
def select (t : Context) (s : Selector) : Context :=
  if t.onset.isLigature || s = .picture && t.onset.isJoinedPicture && !t.has .picture then
    { t with selectors := t.selectors.insert s }
  else ⟨.plain, [s]⟩

/-- The columns that a character adds in front of a text that has no selector for it, and the text
with the character. -/
def join (t : Context) (c : Char) : Int × Context :=
  if t.onset.passes c then
    (0, if c = '\u200d' then { t with onset := t.onset.behindJoiner } else t)
  else
    match t.onset.join? c with
    | some (added, onset) => (added, ⟨onset, []⟩)
    | none => (ownColumns c, ⟨.ofChar c, []⟩)

/-- The columns that a character beyond ASCII adds in front of a text that does not ask for a
picture, and the text with the character. -/
def choose (t : Context) (c : Char) : Int × Context :=
  match Selector.ofChar? c with
  | some s => (0, t.select s)
  | none =>
    if t.has .text && isNarrowAsText c then (1, plain)
    else
      let t := t.drop .text
      if t.has .wideQuote && isCurlyQuote c then (2, plain) else (t.drop .wideQuote).join c

/-- The columns that a character adds in front of a text, and the text with the character. -/
def before (t : Context) (c : Char) : Int × Context :=
  if t.has .picture && variationBases.covers c then
    (if t.onset.isJoinedPicture then 0 else 2, ⟨.picture, []⟩)
  else if c.toNat ≤ 0xa0 then (1, plain)
  else if t.has .picture && !t.onset.isLigature then plain.choose c
  else (t.drop .picture).choose c

end Context

/-- The columns of a line. -/
def columns (line : String) : Nat :=
  let (total, _) := line.toList.foldr
    (fun c (total, text) => let (added, text) := text.before c; (total + added, text))
    ((0 : Int), Context.plain)
  total.toNat

end IlSplice.Text
