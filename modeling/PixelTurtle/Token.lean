/-
PixelTurtle.Token — a source line as a list of words and colons.

`lex` reads one line from the left in one of three modes: in the program
text, in a `//` comment, or in a block comment. A block comment may reach
over line ends, so the mode at the end of a line is handed to the next as
a `Comment`. A vertical tab joins sub-lines that an editor folded into
one line: it separates words and ends a `//` comment.
-/
namespace PixelTurtle

/-- A colon, or a word. -/
inductive Token where
  | colon
  | word (text : String)
  deriving DecidableEq

namespace Token

/-- The token as it is written. -/
def text : Token → String
  | colon => ":"
  | word text => text

/-- The token that a text is. -/
def ofText (text : String) : Token :=
  if text = ":" then colon else word text

end Token

/-- Whether a block comment is open, and on which line it was opened. -/
inductive Comment where
  | closed
  | opened (line : Nat)
  deriving DecidableEq

namespace Comment

/-- The line an open comment began on. -/
def line? : Comment → Option Nat
  | closed => none
  | opened line => some line

end Comment

/-- Where in a line the lexer is. -/
inductive LexMode where
  | code
  | lineComment
  | block (line : Nat)
  deriving DecidableEq

namespace LexMode

/-- The mode a line starts in. -/
def ofComment : Comment → LexMode
  | .closed => code
  | .opened line => block line

/-- What is handed to the next line. -/
def comment : LexMode → Comment
  | code => .closed
  | lineComment => .closed
  | block line => .opened line

end LexMode

/-- The vertical tab, which joins sub-lines. -/
def subLineBreak : Char := '\x0b'

/-- Characters that end a word and are no token. -/
def isSeparator (c : Char) : Bool :=
  c == ' ' || c == '\t' || c == '\r' || c == subLineBreak

/-- Put the pending word, if there is one, in front of the tokens that
follow. Its characters are pending in reverse. -/
def flushWord (pending : List Char) (tokens : List Token) : List Token :=
  match pending with
  | [] => tokens
  | _ => .word (String.ofList pending.reverse) :: tokens

/-- Read the rest of line `line` in a mode, with the characters of a word
read so far. -/
def scan (line : Nat) : LexMode → List Char → List Char → List Token × Comment
  | mode, pending, [] => (flushWord pending [], mode.comment)
  | .code, pending, '/' :: '/' :: rest =>
      let (tokens, comment) := scan line .lineComment [] rest
      (flushWord pending tokens, comment)
  | .code, pending, '/' :: '*' :: rest =>
      let (tokens, comment) := scan line (.block line) [] rest
      (flushWord pending tokens, comment)
  | .code, pending, c :: rest =>
      if c = ':' then
        let (tokens, comment) := scan line .code [] rest
        (flushWord pending (.colon :: tokens), comment)
      else if isSeparator c then
        let (tokens, comment) := scan line .code [] rest
        (flushWord pending tokens, comment)
      else scan line .code (c :: pending) rest
  | .lineComment, pending, c :: rest =>
      if c = subLineBreak then scan line .code pending rest
      else scan line .lineComment pending rest
  | .block _, pending, '*' :: '/' :: rest => scan line .code pending rest
  | .block opened, pending, _ :: rest => scan line (.block opened) pending rest

/-- The tokens of line `line`, and the comment left open after it. -/
def lex (line : Nat) (comment : Comment) (text : List Char) : List Token × Comment :=
  scan line (.ofComment comment) [] text

/-- Read several lines, each with the comment that the one before left. -/
def lexLines (line : Nat) (comment : Comment) :
    List (List Char) → List (List Token × Comment)
  | [] => []
  | text :: rest =>
      let read := lex line comment text
      read :: lexLines (line + 1) read.2 rest

end PixelTurtle
