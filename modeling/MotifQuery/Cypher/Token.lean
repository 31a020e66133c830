import MotifQuery.Motif.Basic
import MotifQuery.Text.Blank

/-!
# `MotifQuery.Cypher.Token`: tokens of the query language

A query text is a row of tokens: words, numbers, quoted texts and marks. Blank characters
and `//` comments part tokens and are dropped; a comment ends before its line feed. A
quoted text runs to the next quote of its kind and knows no escapes. A mark is read as
long as possible, so `<-` is one mark. `Token.lexeme` is the text that a token was read
from.
-/

set_option autoImplicit false

namespace MotifQuery.Cypher

open Text

/-- The marks. -/
inductive Mark where
  | arrowRight
  | arrowLeft
  | unequal
  | atMost
  | atLeast
  | bangEqual
  | openRound
  | closeRound
  | openSquare
  | closeSquare
  | colon
  | comma
  | dot
  | star
  | dash
  | less
  | greater
  | equal
  | semicolon
deriving DecidableEq, Repr

namespace Mark

/-- The text of a mark. -/
def text : Mark → String
  | arrowRight => "->"
  | arrowLeft => "<-"
  | unequal => "<>"
  | atMost => "<="
  | atLeast => ">="
  | bangEqual => "!="
  | openRound => "("
  | closeRound => ")"
  | openSquare => "["
  | closeSquare => "]"
  | colon => ":"
  | comma => ","
  | dot => "."
  | star => "*"
  | dash => "-"
  | less => "<"
  | greater => ">"
  | equal => "="
  | semicolon => ";"

/-- The longest mark at the start of a text. -/
def read? : List Char → Option (Mark × List Char)
  | '-' :: '>' :: rest => some (arrowRight, rest)
  | '<' :: '-' :: rest => some (arrowLeft, rest)
  | '<' :: '>' :: rest => some (unequal, rest)
  | '<' :: '=' :: rest => some (atMost, rest)
  | '>' :: '=' :: rest => some (atLeast, rest)
  | '!' :: '=' :: rest => some (bangEqual, rest)
  | '(' :: rest => some (openRound, rest)
  | ')' :: rest => some (closeRound, rest)
  | '[' :: rest => some (openSquare, rest)
  | ']' :: rest => some (closeSquare, rest)
  | ':' :: rest => some (colon, rest)
  | ',' :: rest => some (comma, rest)
  | '.' :: rest => some (dot, rest)
  | '*' :: rest => some (star, rest)
  | '-' :: rest => some (dash, rest)
  | '<' :: rest => some (less, rest)
  | '>' :: rest => some (greater, rest)
  | '=' :: rest => some (equal, rest)
  | ';' :: rest => some (semicolon, rest)
  | _ => none

end Mark

/-- A token. -/
inductive Token where
  | word (text : String)
  | number (text : String)
  /-- A text and the quote around it. -/
  | quoted (quote : Char) (text : String)
  | mark (m : Mark)
deriving DecidableEq

namespace Token

/-- The text that the token was read from. -/
def lexeme : Token → List Char
  | word text | number text => text.toList
  | quoted quote text => quote :: text.toList ++ [quote]
  | mark m => m.text.toList

/-- The token as messages name it. -/
def describe : Token → String
  | word text | number text => "`" ++ text ++ "`"
  | quoted _ text => "\"" ++ text ++ "\""
  | mark m => "`" ++ m.text ++ "`"

end Token

/-- Why a text is no row of tokens. -/
inductive LexicalFault where
  | unterminated
  | unexpected (c : Char)
deriving DecidableEq

/-- May the character start a word? -/
def startsWord (c : Char) : Bool :=
  isAsciiLetter c || c == '_'

/-- May the character stand inside a word? -/
def continuesWord (c : Char) : Bool :=
  isAsciiLetter c || isAsciiDigit c || c == '_'

/-- May the character stand inside a number? -/
def continuesNumber (c : Char) : Bool :=
  isAsciiDigit c || c == '.'

/-- Reads one piece of a text that starts with `c`: a token, or nothing where the piece is
blank or a comment. -/
def readPiece (c : Char) (cs : List Char) :
    Except LexicalFault (Option Token × List Char) :=
  if isBlank c then .ok (none, cs)
  -- the line feed after a comment is read as a blank of its own
  else if c = '/' ∧ cs.head? = some '/' then .ok (none, cs.dropWhile (· != '\n'))
  else if c = '"' ∨ c = '\'' then
    match cs.dropWhile (· != c) with
    | [] => .error .unterminated
    | _ :: rest => .ok (some (.quoted c (String.ofList (cs.takeWhile (· != c)))), rest)
  else if isAsciiDigit c then
    .ok (some (.number (String.ofList (c :: cs.takeWhile continuesNumber))),
      cs.dropWhile continuesNumber)
  else if startsWord c then
    .ok (some (.word (String.ofList (c :: cs.takeWhile continuesWord))),
      cs.dropWhile continuesWord)
  else
    match Mark.read? (c :: cs) with
    | some (m, rest) => .ok (some (.mark m), rest)
    | none => .error (.unexpected c)

/-- Reads at most `fuel` pieces. -/
def tokensWithin : Nat → List Char → Except LexicalFault (List Token)
  | _, [] => .ok []
  -- not reached with as much fuel as there are characters
  | 0, _ :: _ => .ok []
  | fuel + 1, c :: cs =>
    match readPiece c cs with
    | .error fault => .error fault
    | .ok (token, rest) =>
      match tokensWithin fuel rest with
      | .error fault => .error fault
      | .ok tokens => .ok (token.toList ++ tokens)

/-- The tokens of a text; every piece takes at least one character. -/
def tokens (cs : List Char) : Except LexicalFault (List Token) :=
  tokensWithin cs.length cs

end MotifQuery.Cypher
