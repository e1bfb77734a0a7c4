import EcmaPrinter.Proofs.Pieces
import EcmaPrinter.Proofs.Text.Cooked

/-!
Terminals: what a parser sees of a token.

A parser does not care how a token was handed to the stream.  It sees a word (an identifier name,
which may be a keyword), a punctuator, or a literal with its value.
-/

namespace EcmaPrinter.Grammar

open EcmaPrinter
open EcmaPrinter.Number
open EcmaPrinter.Text

/-- What a parser sees of a token. -/
inductive Terminal where
  /-- An identifier name; keywords are among them. -/
  | word (name : String)
  | punctuator (text : String)
  /-- A string literal, with its cooked value. -/
  | string (units : List Nat)
  | number (value : Double)
  /-- A stretch of a template. -/
  | chunk (raw : String)
  deriving DecidableEq, Repr

/-- The words that are no identifiers. -/
def reservedWords : List String :=
  ["await", "break", "case", "catch", "class", "const", "continue", "debugger", "default",
   "delete", "do", "else", "enum", "export", "extends", "false", "finally", "for", "function",
   "if", "import", "in", "instanceof", "new", "null", "return", "super", "switch", "this",
   "throw", "true", "try", "typeof", "var", "void", "while", "with", "yield"]

/-- Is the text a name that a variable can have? -/
def isIdentifier (name : String) : Bool :=
  isIdentifierName name && !reservedWords.contains name

theorem isIdentifierName_of_isIdentifier {name : String} (h : isIdentifier name) :
    isIdentifierName name := by
  simp only [isIdentifier, Bool.and_eq_true] at h
  exact h.1

namespace Terminal

/-- The terminal with the given text. -/
def ofText (text : String) : Terminal :=
  if isIdentifierName text then .word text
  else match literalUnits? text.toList with
    | some units => .string units
    | none => .punctuator text

theorem ofText_of_isIdentifierName {text : String} (h : isIdentifierName text) :
    ofText text = .word text := by
  simp [ofText, h]

theorem ofText_of_isIdentifier {text : String} (h : isIdentifier text) :
    ofText text = .word text :=
  ofText_of_isIdentifierName (isIdentifierName_of_isIdentifier h)

/-- A string literal is seen with its value. -/
theorem ofText_quote (value : String) :
    ofText (quote value) = .string (textUnits value.toList) := by
  have hname : isIdentifierName (quote value) = false := by
    have hq : isIdentifierStart (cheaperQuote value.toList) = false := by
      rcases isQuote_iff.mp (isQuote_cheaperQuote value.toList) with h | h <;> rw [h] <;> decide
    simp [isIdentifierName, quote, quoteWith, quoteChars, hq]
  simp [ofText, hname, literalUnits?_quote]

end Terminal

/-- The terminal of a token. -/
def terminal : Piece → Terminal
  | .token text | .operator text => .ofText text
  | .raw text => .chunk text
  | .number v => .number v
  | .comma => .punctuator ","
  | .semicolon | .statementEnd => .punctuator ";"

/-- The terminals of the tokens of a fragment. -/
def terminals (f : Fragment) : List Terminal :=
  (tokens (f.pieces false)).map terminal

end EcmaPrinter.Grammar
