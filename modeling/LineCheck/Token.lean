import LineCheck.Ty

/-!
Tokens and their source text.

`Token.text` writes a token; scanning (`LineCheck.Token.Scan`) reads it back.
The reserved words and the symbols are listed once, here, and the scanner
recognises them by this text.
-/

namespace LineCheck

/-- The reserved words that are neither types nor literals. -/
inductive Keyword where
  | finalWord
  | voidWord
  | ifWord
  | whileWord
  | returnWord
deriving DecidableEq, Repr

namespace Keyword

/-- The source text of a keyword. -/
def text : Keyword → String
  | finalWord => "final"
  | voidWord => "void"
  | ifWord => "if"
  | whileWord => "while"
  | returnWord => "return"

/-- All keywords. -/
def all : List Keyword := [finalWord, voidWord, ifWord, whileWord, returnWord]

end Keyword

/-- Operators and punctuation. -/
inductive Symbol where
  | assign
  | or
  | and
  | openParen
  | closeParen
  | openBrace
  | closeBrace
  | comma
  | semicolon
deriving DecidableEq, Repr

namespace Symbol

/-- The source text of a symbol. -/
def text : Symbol → String
  | assign => "="
  | or => "||"
  | and => "&&"
  | openParen => "("
  | closeParen => ")"
  | openBrace => "\x7b"
  | closeBrace => "\x7d"
  | comma => ","
  | semicolon => ";"

/-- All symbols. None of their texts begins another, so their order does not
    matter. -/
def all : List Symbol :=
  [assign, or, and, openParen, closeParen, openBrace, closeBrace, comma, semicolon]

end Symbol

/-- A token: a keyword, the name of a type, a symbol, a name or a literal. -/
inductive Token where
  | keyword (k : Keyword)
  | type (ty : Ty)
  | symbol (s : Symbol)
  | ident (name : String)
  | literal (l : Literal)
deriving DecidableEq, Repr

namespace Token

/-- The source text of a token. -/
def text : Token → String
  | keyword k => k.text
  | type ty => ty.name
  | symbol s => s.text
  | ident name => name
  | literal l => l.text

/-- The tokens that look like names: keywords, types and the two truth values. -/
def reserved : List Token :=
  Keyword.all.map keyword ++ Ty.all.map type ++ [literal (.bool true), literal (.bool false)]

/-- The token of a word: the reserved one with this text, or else a name. -/
def ofWord (word : String) : Token :=
  (reserved.find? (·.text == word)).getD (ident word)

theorem text_ofWord (word : String) : (ofWord word).text = word := by
  unfold ofWord
  cases h : reserved.find? (·.text == word) with
  | none => rfl
  | some t => simpa using List.find?_some h

end Token

/-- The operand written as a single token, if the token is one. -/
def Operand.ofToken? : Token → Option Operand
  | .ident name => some (.var name)
  | .literal l => some (.literal l)
  | _ => none

/-- The token of an operand. -/
def Operand.token : Operand → Token
  | .var name => .ident name
  | .literal l => .literal l

theorem Operand.ofToken?_eq_some_iff {t : Token} {o : Operand} :
    Operand.ofToken? t = some o ↔ t = o.token := by
  cases t <;> cases o <;> simp [ofToken?, token]

end LineCheck
