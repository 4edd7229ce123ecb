/-
Module: Marginalia.Go.Grammar.Phrase
Purpose: The kinds of phrases that contain one another, and the settings an expression is read in.
Main exports:
  Setting, Place, Phrase, Phrases
-/
import Marginalia.Go.Grammar.Reading

namespace Marginalia.Go.Grammar

/-- What may follow an expression, as far as that decides how it is read. -/
structure Setting where
  /-- A newline ends the expression. -/
  line : Bool := false
  /-- A brace after the expression opens a block, and no literal of a named type. -/
  body : Bool := false
  /-- `++` or `--` may follow. -/
  count : Bool := false
  /-- `<-` may follow. -/
  send : Bool := false
  /-- `.(type)` may follow. -/
  guard : Bool := false
deriving Repr, DecidableEq, Inhabited

/-- The list of statements that a statement stands in. -/
inductive Place where
  | top
  | block
  | clause
deriving Repr, DecidableEq, Inhabited

/-- The phrases that may contain one another. -/
inductive Phrase where
  | type (line : Bool)
  | expression (setting : Setting)
  | literal
  | block
  | statement (place : Place)
deriving Repr, DecidableEq, Inhabited

/-- A reader for every phrase. The rules of the grammar are given over such a family, which reads
the phrases inside. -/
abbrev Phrases := Phrase → Reading Draft

/-- Whether a token can begin a type. -/
def beginsType : Token → Bool
  | .word _ => true
  | .mark .star => true
  | .mark .parenL => true
  | .mark .bracketL => true
  | .mark .arrow => true
  | .mark .tilde => true
  | _ => false

/-- Whether a token can begin an expression. -/
def beginsExpression : Token → Bool
  | .word _ => true
  | .number => true
  | .rune => true
  | .quoted => true
  | .raw => true
  | .mark m =>
    [.parenL, .bracketL, .tilde, .plus, .minus, .bang, .caret, .star, .amp, .arrow, .increment,
      .decrement, .andAnd, .ampCaret].contains m
  | _ => false

end Marginalia.Go.Grammar
