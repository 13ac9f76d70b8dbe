import Stencil.Number.Numeral

/-!
# Why parsing fails
-/

namespace Stencil

/-- What is wrong with a text. -/
inductive ParseError.Kind where
  /-- A quote is not closed, or a constant goes on behind its closing quote. -/
  | unterminatedQuote
  /-- The text ends inside a body. -/
  | unbalancedBraces
  /-- The text ends inside a parameter list. -/
  | malformedParameters (reason : String)
  /-- A parameter is missing between two commas, or beside one. -/
  | emptyParameter
  /-- A tag cannot continue what stands before it. -/
  | illegalChain (tag reason : String)
  deriving DecidableEq, Repr

/-- What is wrong with a text and where. Lines and columns count from one, and columns count
bytes. -/
structure ParseError where
  line : Nat
  column : Nat
  kind : ParseError.Kind
  deriving DecidableEq, Repr

namespace ParseError

def Kind.message : Kind → String
  | unterminatedQuote => "unterminated quoted constant"
  | unbalancedBraces => "unbalanced braces, body opened here is never closed"
  | malformedParameters reason => s!"malformed parameter list: {reason}"
  | emptyParameter => "invalid argument: empty"
  | illegalChain tag reason => s!"unable to chain '{tag}': {reason}"

def message (error : ParseError) : String :=
  "Parse error at line " ++ Numeral.natural error.line ++ ", column " ++
    Numeral.natural error.column ++ ": " ++ error.kind.message

end ParseError

end Stencil
