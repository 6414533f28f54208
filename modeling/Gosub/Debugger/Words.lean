/-!
# Words of a line

A line is split at blanks and line feeds. Quotes, double or single, keep blanks inside a word, a
backslash takes the next character as it is and joins lines, and a hash sign where a word could
begin starts a comment. A line whose quotes are open has no words yet.
-/

namespace Gosub.Words

/-- What the characters read so far lead to. -/
inductive Mode where
  | gap
  /-- Behind a backslash between words. -/
  | gapEscape
  | bare
  /-- Behind a backslash in a word. -/
  | bareEscape
  | singleQuoted
  | doubleQuoted
  /-- Behind a backslash in double quotes. -/
  | quotedEscape
  | comment
  deriving DecidableEq

def isGap (c : Char) : Bool := c = ' ' || c = '\t' || c = '\n'

def singleQuote : Char := '\x27'
def doubleQuote : Char := '\x22'
def backslash : Char := '\x5c'

/-- The characters that a backslash escapes in double quotes. -/
def isQuotedEscape (c : Char) : Bool := c = '$' || c = '\x60' || c = doubleQuote || c = backslash

/-- What a character outside of quotes leads to, in a word or between words. -/
def open? (escape : Mode) (c : Char) : Option Mode :=
  if c = singleQuote then some .singleQuoted
  else if c = doubleQuote then some .doubleQuoted
  else if c = backslash then some escape
  else none

/-- The words of the rest of a line. The characters of the present word come last first. -/
def splitFrom : Mode → List Char → List Char → Option (List String)
  | .gap, _, [] => some []
  | .comment, _, [] => some []
  | .bare, word, [] => some [String.ofList word.reverse]
  | .gapEscape, word, [] => some [String.ofList (backslash :: word).reverse]
  | .bareEscape, word, [] => some [String.ofList (backslash :: word).reverse]
  | .singleQuoted, _, [] => none
  | .doubleQuoted, _, [] => none
  | .quotedEscape, _, [] => none
  | .gap, word, c :: rest =>
    match open? .gapEscape c with
    | some mode => splitFrom mode word rest
    | none =>
      if isGap c then splitFrom .gap word rest
      else if c = '#' then splitFrom .comment word rest
      else splitFrom .bare (c :: word) rest
  | .gapEscape, word, c :: rest =>
    if c = '\n' then splitFrom .gap word rest else splitFrom .bare (c :: word) rest
  | .bare, word, c :: rest =>
    match open? .bareEscape c with
    | some mode => splitFrom mode word rest
    | none =>
      if isGap c then (splitFrom .gap [] rest).map (String.ofList word.reverse :: ·)
      else splitFrom .bare (c :: word) rest
  | .bareEscape, word, c :: rest =>
    if c = '\n' then splitFrom .bare word rest else splitFrom .bare (c :: word) rest
  | .singleQuoted, word, c :: rest =>
    if c = singleQuote then splitFrom .bare word rest else splitFrom .singleQuoted (c :: word) rest
  | .doubleQuoted, word, c :: rest =>
    if c = doubleQuote then splitFrom .bare word rest
    else if c = backslash then splitFrom .quotedEscape word rest
    else splitFrom .doubleQuoted (c :: word) rest
  | .quotedEscape, word, c :: rest =>
    if c = '\n' then splitFrom .doubleQuoted word rest
    else if isQuotedEscape c then splitFrom .doubleQuoted (c :: word) rest
    else splitFrom .doubleQuoted (c :: backslash :: word) rest
  | .comment, word, c :: rest =>
    if c = '\n' then splitFrom .gap word rest else splitFrom .comment word rest

/-- The words of a line, unless a quote is open at its end. -/
def split? (line : String) : Option (List String) := splitFrom .gap [] line.toList

end Gosub.Words
