import IlSplice.Text.Width.Emoji
import IlSplice.Text.Width.Letters
import IlSplice.Text.Width.Weightless
import IlSplice.Text.Width.Wide

/-!
How a character is shown depends on what follows it.

An `Onset` is what the text behind a character begins with, as far as the character may combine
with it: into a ligature, a flag, or a picture. `join?` says what they combine to.
-/

namespace IlSplice.Text

/-- What a text begins with. -/
inductive Onset where
  /-- Nothing that combines with the character before. -/
  | plain
  | alef
  /-- The Hebrew letter lamed, perhaps behind a joiner. -/
  | lamed (joined : Bool)
  /-- The Buginese letter ya, perhaps behind a joiner. -/
  | ya (joined : Bool)
  /-- The Buginese letter ya behind a joiner and the vowel i. -/
  | vowelledYa
  /-- A consonant of Tifinagh, perhaps behind a joiner. -/
  | tifinagh (joined : Bool)
  /-- A consonant of Tifinagh behind the sign that joins it to another one. -/
  | bondedTifinagh
  /-- One of the last two tone letters of Lisu. -/
  | lisuTone
  /-- The Old Turkic letter i, perhaps behind a joiner. -/
  | orkhonI (joined : Bool)
  | khmer
  /-- The vowel sign e of Kirat Rai. -/
  | kiratE
  /-- The vowel signs of Kirat Rai that make up ai. -/
  | kiratAi
  /-- A regional indicator that is not known to follow another one. -/
  | regional
  /-- Two regional indicators or more. -/
  | regionals
  | skinColour
  | picture
  /-- A picture behind a joiner. -/
  | joinedPicture
  /-- A picture behind a joiner and the frame of a key. -/
  | joinedKey
  /-- A regional indicator and the joiner of a picture. -/
  | joinedRegional
  /-- Regional indicators and the joiner of a picture. -/
  | joinedRegionals (even : Bool)
  /-- The end of the name of a region, with a number of letters. -/
  | regionLetters (count : Nat)
  /-- The end of the name of a region, with a number of digits in front. -/
  | regionDigits (count : Nat)
  deriving DecidableEq, Repr

namespace Onset

/-- What a character begins by itself. -/
def ofChar (c : Char) : Onset :=
  if c = '\u05dc' then .lamed false
  else if c = '\u1a10' then .ya false
  else if c = '\ua4fc' || c = '\ua4fd' then .lisuTone
  else if c.toNat = 0x10c03 then .orkhonI false
  else if c.toNat = 0x16d67 then .kiratE
  else if c.toNat = 0x16d68 then .kiratAi
  else if isRegionalIndicator c then .regional
  else if isSkinColour c then .skinColour
  else if alefs.covers c then .alef
  else if khmerLetters.covers c then .khmer
  else if tifinaghLetters.covers c then .tifinagh false
  else if pictures.covers c then .picture
  else .plain

/-- The text may begin with a part of a ligature. -/
def isLigature : Onset → Bool
  | .alef | .lamed _ | .ya _ | .vowelledYa | .tifinagh _ | .bondedTifinagh | .lisuTone
  | .orkhonI _ | .khmer | .kiratE | .kiratAi => true
  | _ => false

/-- The text begins with a joiner of pictures. -/
def isJoinedPicture : Onset → Bool
  | .joinedPicture | .joinedKey => true
  | _ => false

/-- The characters that can stand between a ligature's parts. -/
def passes (o : Onset) (c : Char) : Bool :=
  match o with
  | .alef => isTransparent c
  | o => o.isLigature && ligatureShapers.covers c

/-- The text behind a joiner. -/
def behindJoiner : Onset → Onset
  | .lamed _ => .lamed true
  | .ya _ => .ya true
  | .tifinagh _ => .tifinagh true
  | .orkhonI _ => .orkhonI true
  | o => o

/-- A letter in the hidden name of a region. -/
def isTagLetter (c : Char) : Bool := 0xe0061 ≤ c.toNat && c.toNat ≤ 0xe007a

/-- A digit in the hidden name of a region. -/
def isTagDigit (c : Char) : Bool := 0xe0030 ≤ c.toNat && c.toNat ≤ 0xe0039

/-- The black flag, which the name of a region makes the flag of the region. -/
def isBlackFlag (c : Char) : Bool := c.toNat = 0x1f3f4

/-- What a character becomes together with the text behind it: the columns that it adds, and what
the text begins with then. -/
def join? (o : Onset) (c : Char) : Option (Int × Onset) :=
  match o with
  | .alef => if lams.covers c then some (0, .plain) else none
  | .lamed true => if c = '\u05d0' then some (0, .plain) else none
  | .ya true => if c = '\u1a17' then some (0, .vowelledYa) else none
  | .vowelledYa => if c = '\u1a15' then some (0, .plain) else none
  | .tifinagh joined =>
    if c = '\u2d7f' then some (1, .bondedTifinagh)
    else if joined && tifinaghLetters.covers c then some (0, .plain)
    else none
  | .bondedTifinagh => if tifinaghLetters.covers c then some (-1, .plain) else none
  | .lisuTone => if '\ua4f8' ≤ c && c ≤ '\ua4fb' then some (0, .plain) else none
  | .orkhonI true => if c.toNat = 0x10c32 then some (0, .plain) else none
  | .khmer => if c = '\u17d2' then some (-1, .plain) else none
  | .kiratE =>
    if c.toNat = 0x16d63 || c.toNat = 0x16d69 then some (0, .plain)
    else if c.toNat = 0x16d67 then some (0, .kiratAi)
    else if c.toNat = 0x16d68 then some (1, .kiratE)
    else none
  | .kiratAi => if c.toNat = 0x16d63 then some (0, .plain) else none
  | .regional => if isRegionalIndicator c then some (1, .regionals) else none
  | .regionals =>
    if isRegionalIndicator c then some (1, .regionals)
    else if c = '\u200d' then some (0, .joinedPicture)
    else none
  | .skinColour =>
    if modifierBases.covers c then some (0, .picture)
    else if c = '\u200d' then some (0, .joinedPicture)
    else none
  | .picture => if c = '\u200d' then some (0, .joinedPicture) else none
  | .joinedPicture =>
    if c = '\u20e3' then some (0, .joinedKey)
    else if isRegionalIndicator c then some (1, .joinedRegional)
    else if isSkinColour c then some (0, .skinColour)
    else if c.toNat = 0xe007f then some (0, .regionLetters 0)
    else if pictures.covers c then some (0, .picture)
    else none
  | .joinedRegional => if isRegionalIndicator c then some (-1, .joinedRegionals true) else none
  | .joinedRegionals even =>
    if isRegionalIndicator c then
      some (if even then (3, .joinedRegionals false) else (-1, .joinedRegionals true))
    else if c = '\u200d' then some (0, .joinedPicture)
    else none
  | .regionLetters count =>
    if isTagLetter c && count < 6 then some (0, .regionLetters (count + 1))
    else if isTagDigit c && count ≤ 4 then some (0, .regionDigits 1)
    else if isBlackFlag c && 3 ≤ count then some (0, .picture)
    else none
  | .regionDigits count =>
    if isTagDigit c && count < 3 then some (0, .regionDigits (count + 1))
    else if isBlackFlag c && count = 3 then some (0, .picture)
    else none
  | .plain | .lamed false | .ya false | .orkhonI false | .joinedKey => none

end Onset

end IlSplice.Text
