import QualityScript.Template
import QualityScript.Expr.Token

/-!
# Diagnostics

Nothing that an author writes stops an evaluation: where a script makes no sense, a plain value
stands in, and a diagnostic says so. A problem is what was wrong; its diagnostic is a kind, a message
and the piece of script in which it was found.
-/

namespace QualityScript

open Number

inductive DiagnosticKind where
  /-- A text was no expression and was kept as it stands. -/
  | parseDegrade
  /-- A reference has neither a state nor a definition. -/
  | unresolvedReference
  /-- Expansion went too deep; the text was kept as it stands. -/
  | recursionLimitExceeded
  /-- A margin or a divisor of zero. -/
  | divisionDegenerate
  /-- A brace without a partner. -/
  | unbalancedBraces
  /-- An alias was assigned again; the first value stands. -/
  | aliasRebound
  /-- There was nothing to choose from. -/
  | emptySelection
  deriving DecidableEq, Repr

namespace DiagnosticKind

def label : DiagnosticKind → String
  | parseDegrade => "ParseDegrade"
  | unresolvedReference => "UnresolvedReference"
  | recursionLimitExceeded => "RecursionLimitExceeded"
  | divisionDegenerate => "DivisionDegenerate"
  | unbalancedBraces => "UnbalancedBraces"
  | aliasRebound => "AliasRebound"
  | emptySelection => "EmptySelection"

def all : List DiagnosticKind :=
  [parseDegrade, unresolvedReference, recursionLimitExceeded, divisionDegenerate, unbalancedBraces,
    aliasRebound, emptySelection]

def ofLabel? (word : String) : Option DiagnosticKind := all.find? (·.label = word)

end DiagnosticKind

structure Diagnostic where
  kind : DiagnosticKind
  message : String
  /-- The piece of script in which the problem was found. -/
  snippet : String
  deriving DecidableEq, Repr

def Diagnostic.display (d : Diagnostic) : String :=
  d.kind.label ++ ": " ++ d.message ++ " in \x60" ++ d.snippet ++ "\x60"

/-- What can be wrong with a script. -/
inductive Problem where
  | braces (error : BraceError) (template : String)
  /-- A text that looks like script is none. -/
  | noExpression (error : ParseError) (source : String)
  | unboundAlias (name : String)
  | aliasRebound (name : String)
  | unresolved (reference : Reference)
  | divisionByZero (lhs rhs : Value)
  /-- A margin of zero or less makes the chance a step at the target. -/
  | stepMargin (margin : Float) (direction : Direction) (target : Float)
  /-- An effect on `$.` where no quality is bound. -/
  | effectOnNothing
  | emptyCategory (category : String)
  | nothingPicked (category : String)
  | nothingRolled (category : String)
  | tooDeep (depth : Nat) (snippet : String)

namespace Problem

def kind : Problem → DiagnosticKind
  | braces .. => .unbalancedBraces
  | noExpression .. => .parseDegrade
  | unboundAlias _ | unresolved _ | effectOnNothing => .unresolvedReference
  | aliasRebound _ => .aliasRebound
  | divisionByZero .. | stepMargin .. => .divisionDegenerate
  | emptyCategory _ | nothingPicked _ | nothingRolled _ => .emptySelection
  | tooDeep .. => .recursionLimitExceeded

def message : Problem → String
  | braces error _ => error.message
  | noExpression error _ => error.message
  | unboundAlias name => "alias @" ++ name ++ " is not bound"
  | aliasRebound name => "alias @" ++ name ++ " is already bound"
  | unresolved reference => "no state or definition for " ++ reference.display
  | divisionByZero .. => "division by zero yields 0"
  | stepMargin margin .. => "margin " ++ plainText margin ++ " degrades to a step at the target"
  | effectOnNothing => "effect on $. with no quality bound"
  | emptyCategory category => "no qualities in category " ++ category
  | nothingPicked category => "%pick found nothing in " ++ category
  | nothingRolled category => "%roll found no weighted candidate in " ++ category
  | tooDeep depth _ => "expansion stopped at depth " ++ toString depth

def snippet : Problem → String
  | braces _ template => template
  | noExpression _ source => source
  | unboundAlias name | aliasRebound name => name
  | unresolved reference => reference.display
  | divisionByZero lhs rhs => lhs.display ++ " / " ++ rhs.display
  | stepMargin _ direction target => direction.symbol ++ " " ++ plainText target
  | effectOnNothing => "$."
  | emptyCategory category | nothingPicked category | nothingRolled category => category
  | tooDeep _ snippet => snippet

def diagnostic (p : Problem) : Diagnostic := ⟨p.kind, p.message, p.snippet⟩

end Problem

end QualityScript
