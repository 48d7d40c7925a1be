import QualityScript.Eval.Basic
import QualityScript.Expr.Parser
import QualityScript.Block

/-!
# Evaluating templates and blocks

Every block of a template is replaced by the text of its value. A value that is not settled and has
braces of its own is a template again and is expanded one level deeper.

Of a chain the first link whose condition holds gives the value, and the conditions after it are not
looked at. Of a choice one option is drawn. A leaf has its nested blocks expanded and is then read as
an expression; what is no expression, or reads as prose, stands for itself.
-/

namespace QualityScript.Eval

def blockText (env : Env) (self : Evaluator) (content : String) (frame : Frame) : EvalM String := do
  let outcome ← self.content .inText content frame
  let text := outcome.value.display
  if outcome.settled || !hasBrace text then return text
  else
    match ← EvalM.descend env.config frame text with
    | some deeper => self.expand false text deeper
    | none => return text

def segments (env : Env) (self : Evaluator) (frame : Frame) : Template → EvalM String
  | [] => return ""
  | .literal text :: rest => do
    let after ← segments env self frame rest
    return text ++ after
  | .block content :: rest => do
    let text ← blockText env self content frame
    let after ← segments env self frame rest
    return text ++ after

/-- The text of a template. The first brace without a partner is reported. -/
def expand (env : Env) (self : Evaluator) (quotesKept : Bool) (input : String) (frame : Frame) :
    EvalM String := do
  if hasBrace input then
    let (template, errors) := scan quotesKept input
    match errors with
    | error :: _ => EvalM.record (.braces error input)
    | [] => pure ()
    segments env self frame template
  else return input

def chain (self : Evaluator) (frame : Frame) : List Branch → EvalM Outcome
  | [] => return .ofValue .empty
  | ⟨none, result⟩ :: _ => self.leaf result frame
  | ⟨some condition, result⟩ :: rest => do
    if (← self.leaf condition frame).value.isTruthy then self.leaf result frame
    else chain self frame rest

def content (env : Env) (self : Evaluator) (mode : Mode) (input : String) (frame : Frame) :
    EvalM Outcome := do
  match Block.classify input with
  | .empty => return .ofValue .empty
  | .assign name expression =>
    let outcome ← self.content .standalone expression frame
    EvalM.bindAlias name outcome.value
    match mode with
    | .inText => return .ofValue .empty
    | .standalone => return outcome
  | .conditional branches => chain self frame branches
  | .choice options =>
    match ← EvalM.draw (Randomness.choose env.attempts options) with
    | some option => self.leaf option frame
    | none => return .ofValue .empty
  | .leaf source => self.leaf source frame

/-- Whether the value of an expression is shown as it is: its templates were expanded before. -/
def isSettled : Expr → Bool
  | .ref _ | .literal _ => true
  | _ => false

/-- The value of a text without nested blocks. -/
def expression (self : Evaluator) (source : String) (frame : Frame) : EvalM Outcome := do
  match Expr.parse source with
  | .ok e =>
    if e.readsAsProse then return .ofValue (.text source)
    else return ⟨← self.expr e frame, isSettled e⟩
  | .error error =>
    if looksLikeScript source.toList then EvalM.record (.noExpression error source)
    return .ofValue (.text source)

/-- The text of a leaf with its nested blocks expanded; quoted texts are kept. -/
def expandNested (env : Env) (self : Evaluator) (source : String) (frame : Frame) :
    EvalM String := do
  if hasBrace source then
    match ← EvalM.descend env.config frame source with
    | some deeper => self.expand true source deeper
    | none => return source
  else return source

/-- The contents of a leaf that is one block as a whole. -/
def nestedBlock? (source : String) : Option String :=
  if source.toList.head? = some '{' then Template.blockContent? source else none

/-- The value of a leaf. A leaf that is one block has the value of that block. -/
def leaf (env : Env) (self : Evaluator) (input : String) (frame : Frame) : EvalM Outcome := do
  let source := Text.trimmed input
  match nestedBlock? source with
  | some inner =>
    match ← EvalM.descend env.config frame source with
    | some deeper => self.content .standalone inner deeper
    | none => return .ofValue (.text source)
  | none => expression self (← expandNested env self source frame) frame

end QualityScript.Eval
