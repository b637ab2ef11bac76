import ParamSweep.Formula.Operator
import ParamSweep.Number.Literal
import ParamSweep.Number.Rendering

/-!
# Lexemes and tokens

A text falls apart into lexemes: each of the seven glyphs `( ) + - * / ^` is one of its own,
and everything between two glyphs is one run. The lexemes of a text joined together give the
text back, and two runs never stand side by side.

A glyph is always a token. A run is a token if it is a number literal or a name, and a text
has tokens only if all of its runs do. Blanks are ordinary characters here: a run that holds
one is no token.
-/

namespace ParamSweep.Formula

/-- A unit of a formula. -/
inductive Token
  | number (value : Value)
  | name (text : String)
  | operator (op : Operator)
  | opening
  | closing
  deriving Repr

/-- A piece of text before it is known to be a token. -/
inductive Lexeme
  | glyph (c : Char)
  | run (text : List Char)
  deriving DecidableEq, Repr

/-- A name: a small letter, then small letters and digits. -/
def isName : List Char → Bool
  | [] => false
  | first :: rest => first.isLower && rest.all fun c => c.isLower || c.isDigit

namespace Token

/-- The token that a single glyph stands for. -/
def ofGlyph? : Char → Option Token
  | '(' => some opening
  | ')' => some closing
  | c => (Operator.ofGlyph? c).map operator

/-- The token that a run stands for. -/
def ofRun? (text : List Char) : Option Token :=
  match Number.Literal.read? text with
  | some value => some (number (.float value))
  | none => if isName text then some (name (String.ofList text)) else none

/-- Whether a token is an operand on its own. -/
def isOperand : Token → Bool
  | number _ | name _ => true
  | _ => false

/-- Whether a token opens a group. -/
def isOpening : Token → Bool
  | opening => true
  | _ => false

/-- Whether a token closes a group. -/
def isClosing : Token → Bool
  | closing => true
  | _ => false

/-- The operator of a token, if it is one. -/
def operator? : Token → Option Operator
  | operator op => some op
  | _ => none

/-- The written form of a token. Numbers are written in the shortest positional form, which
need not be the literal they were read from. -/
def text : Token → String
  | number value => Number.plain value.toFloat
  | name text => text
  | operator op => op.glyph.toString
  | opening => "("
  | closing => ")"

end Token

namespace Lexeme

/-- Puts a character in front of the lexemes of the text behind it. -/
def attach (c : Char) (lexemes : List Lexeme) : List Lexeme :=
  match Token.ofGlyph? c, lexemes with
  | some _, lexemes => glyph c :: lexemes
  | none, run text :: rest => run (c :: text) :: rest
  | none, lexemes => run [c] :: lexemes

/-- The lexemes of a text. -/
def ofText (text : List Char) : List Lexeme := text.foldr attach []

/-- The text of a lexeme. -/
def text : Lexeme → List Char
  | glyph c => [c]
  | run text => text

/-- The token that a lexeme stands for. -/
def token? : Lexeme → Option Token
  | glyph c => Token.ofGlyph? c
  | run text => Token.ofRun? text

end Lexeme

/-- The tokens of a text, if every lexeme of it is one. -/
def tokens? (text : List Char) : Option (List Token) := (Lexeme.ofText text).mapM Lexeme.token?

/-- The written form of a list of tokens. -/
def textOf (tokens : List Token) : String := String.join (tokens.map Token.text)

end ParamSweep.Formula
