import QualityScript.Expr.Basic
import QualityScript.Text.Quoted

/-!
# Tokens, and why a text is no expression

What an expression is read from. A call is one token, because its arguments are read on their own.
Tokens, trees and values can be written out in full for messages: a name, then its parts in
parentheses, or in braces where they have names, so that a reader sees what a script really yields and
not only its text.
-/

namespace QualityScript

inductive Op where
  | compare (op : CompareOp)
  | challenge (direction : Direction)
  | change (op : ChangeOp)
  | arith (op : ArithOp)
  | and
  | or
  | not
  deriving DecidableEq, Repr

inductive Token where
  | int (number : Int64)
  | float (number : Float)
  | text (text : String)
  | ref (reference : Reference) (notes : Notes)
  | aliasName (name : String)
  | word (text : String)
  | call (call : Call)
  | op (op : Op)
  | percent
  | comma
  | semicolon
  | tilde
  | openParen
  | closeParen

/-- What was opened and never closed. -/
inductive Enclosure where
  | text
  | notes
  | call
  | parenthesis
  deriving DecidableEq, Repr

def Enclosure.word : Enclosure → String
  | text => "string"
  | notes => "metadata"
  | call => "macro"
  | parenthesis => "parenthesis"

/-- Why a text is no expression, or not the one that was asked for. -/
inductive ParseError where
  | unexpectedChar (c : Char)
  | unterminated (what : Enclosure)
  | unexpectedToken (token : Token)
  /-- A complete expression that is no challenge. -/
  | noChallenge (expr : Expr)
  | unexpectedEnd
  | unknownCall (name : String)
  | badArguments (name : String)
  | badDuration (text : String)
  /-- A challenge has at most four parameters. -/
  | tooManyParameters

/-! ## Written-out forms -/

namespace Inspect

open Text Number

/-- A name with its parts in parentheses. -/
def tuple (name : String) (parts : List String) : String :=
  name ++ "(" ++ ", ".intercalate parts ++ ")"

/-- A name with its named parts in braces. -/
def fields (name : String) (parts : List (String × String)) : String :=
  name ++ " \x7b " ++ ", ".intercalate (parts.map fun (field, value) => field ++ ": " ++ value)
    ++ " \x7d"

def list (items : List String) : String := "[" ++ ", ".intercalate items ++ "]"

def bool (b : Bool) : String := if b then "true" else "false"

def optionText : Option String → String
  | none => "None"
  | some s => tuple "Some" [quoted s]

def scope : Scope → String
  | .player => "Local"
  | .world => "World"
  | .self => "SelfRef"

def property : Property → String
  | .value => "Value"
  | .level => "Level"
  | .changePoints => "ChangePoints"
  | .kind => "Type"
  | .name => "Name"
  | .description => "Description"
  | .plural => "Plural"
  | .capital => "Capital"
  | .variant key => tuple "Variant" [quoted key]

def reference (r : Reference) : String :=
  fields "ScopedRef" [("scope", scope r.scope), ("id", quoted r.id), ("property", property r.property)]

def notes (n : Notes) : String :=
  fields "Meta" [("description", optionText n.description), ("source", optionText n.source)]

def literal : Literal → String
  | .bool b => tuple "Bool" [bool b]
  | .int n => tuple "Int" [Value.wordText n]
  | .float x => tuple "Float" [pointedText x]
  | .text s => tuple "String" [quoted s]

def arithOp : ArithOp → String
  | .add => "Add"
  | .sub => "Sub"
  | .mul => "Mul"
  | .div => "Div"

def compareOp : CompareOp → String
  | .gt => "Gt"
  | .lt => "Lt"
  | .ge => "Ge"
  | .le => "Le"
  | .eq => "Eq"
  | .ne => "Ne"

def changeOp : ChangeOp → String
  | .add => "Add"
  | .subtract => "Subtract"
  | .set => "Set"
  | .increment => "Increment"
  | .decrement => "Decrement"

def target : EffectTarget → String
  | .quality r => tuple "Quality" [reference r]
  | .category name => tuple "Category" [quoted name]

def unit : DurationUnit → String
  | .minutes => "Minutes"
  | .hours => "Hours"
  | .days => "Days"

mutual

def expr : Expr → String
  | .literal v => tuple "Literal" [literal v]
  | .ref r => tuple "Ref" [reference r]
  | .aliasName name => tuple "Alias" [quoted name]
  | .word text => tuple "Word" [quoted text]
  | .call c => tuple "Macro" [call c]
  | .neg inner => tuple "Neg" [expr inner]
  | .not inner => tuple "Not" [expr inner]
  | .arith op lhs rhs => fields "Arith" [("op", arithOp op), ("lhs", expr lhs), ("rhs", expr rhs)]
  | .compare op lhs rhs =>
    fields "Compare" [("op", compareOp op), ("lhs", expr lhs), ("rhs", expr rhs)]
  | .and items => tuple "And" [list (exprs items)]
  | .or items => tuple "Or" [list (exprs items)]
  | .challenge c => tuple "Challenge" [challenge c]
  | .effect effects => tuple "Effect" [list (effectExprs effects)]
  | .range lo hi => fields "Range" [("lo", expr lo), ("hi", expr hi)]

def exprs : List Expr → List String
  | [] => []
  | e :: es => expr e :: exprs es

def optionExpr : Option Expr → String
  | none => "None"
  | some e => tuple "Some" [expr e]

def challenge : Challenge → String
  | ⟨subject, direction, target, margin, minCap, maxCap, pivot, roll⟩ =>
    fields "Challenge"
      [("subject", expr subject), ("op", direction.label), ("target", expr target),
        ("margin", optionExpr margin), ("min_cap", optionExpr minCap),
        ("max_cap", optionExpr maxCap), ("pivot", optionExpr pivot), ("roll", bool roll)]

def effectExpr : EffectExpr → String
  | ⟨aim, remarks, op, amount⟩ =>
    fields "EffectExpr"
      [("target", target aim), ("meta", notes remarks), ("op", changeOp op),
        ("amount", optionExpr amount)]

def effectExprs : List EffectExpr → List String
  | [] => []
  | e :: es => effectExpr e :: effectExprs es

def call : Call → String
  | .random chance invert => fields "Random" [("chance", expr chance), ("invert", bool invert)]
  | .pick category count filter =>
    fields "Pick"
      [("category", quoted category), ("count", optionExpr count), ("filter", optionExpr filter)]
  | .roll category filter =>
    fields "Roll" [("category", quoted category), ("filter", optionExpr filter)]
  | .list category separator filter =>
    fields "List"
      [("category", quoted category), ("separator", separator.label), ("filter", optionExpr filter)]
  | .all category => fields "All" [("category", quoted category)]
  | .schedule kind effect amount u =>
    fields "Schedule"
      [("kind", kind.label), ("effect", list (effectExprs effect)), ("amount", expr amount),
        ("unit", unit u)]
  | .chance c => tuple "Chance" [challenge c]

end

def op : Op → String
  | .compare o => tuple "Compare" [compareOp o]
  | .challenge d => tuple "Challenge" [d.label]
  | .change o => tuple "Change" [changeOp o]
  | .arith o => tuple "Arith" [arithOp o]
  | .and => "And"
  | .or => "Or"
  | .not => "Not"

def token : Token → String
  | .int n => tuple "Int" [Value.wordText n]
  | .float x => tuple "Float" [pointedText x]
  | .text s => tuple "Str" [quoted s]
  | .ref r n => tuple "Ref" [reference r, notes n]
  | .aliasName name => tuple "Alias" [quoted name]
  | .word text => tuple "Word" [quoted text]
  | .call c => tuple "Macro" [call c]
  | .op o => tuple "Op" [op o]
  | .percent => "Percent"
  | .comma => "Comma"
  | .semicolon => "Semicolon"
  | .tilde => "Tilde"
  | .openParen => "LParen"
  | .closeParen => "RParen"

def holding : Quality.Holding → String
  | .pyramidal level points =>
    fields "Pyramidal" [("level", Value.wordText level), ("change_points", Value.wordText points)]
  | .counter level => fields "Counter" [("level", Value.wordText level)]
  | .item level => fields "Item" [("level", Value.wordText level)]
  | .equipable level bonus =>
    fields "Equipable" [("level", Value.wordText level), ("bonus", optionText bonus)]
  | .text value => fields "String" [("value", quoted value)]

mutual

def value : Value → String
  | .bool b => tuple "Bool" [bool b]
  | .int n => tuple "Int" [Value.wordText n]
  | .float x => tuple "Float" [pointedText x]
  | .text s => tuple "String" [quoted s]
  | .ids ids => tuple "List" [list (ids.map quoted)]
  | .effect cs => tuple "Effect" [fields "Effect" [("changes", list (changes cs))]]
  | .pending event => tuple "Pending" [pending event]

def pending : PendingEvent → String
  | ⟨kind, effect, duration⟩ =>
    fields "PendingEvent"
      [("kind", kind.label), ("effect", fields "Effect" [("changes", list (changes effect))]),
        ("duration_ms", toString duration.toNat)]

def change : Change → String
  | ⟨place, id, op, amount, before, after, description, source⟩ =>
    fields "ChangeDescriptor"
      [("scope", scope place), ("quality_id", quoted id), ("op", changeOp op),
        ("amount", value amount), ("before", holding before), ("after", holding after),
        ("description", optionText description), ("source", optionText source)]

def changes : List Change → List String
  | [] => []
  | c :: cs => change c :: changes cs

end

end Inspect

def ParseError.message : ParseError → String
  | unexpectedChar c => "unexpected character '" ++ c.toString ++ "'"
  | unterminated what => "unterminated " ++ what.word
  | unexpectedToken token => "unexpected token " ++ Inspect.token token
  | noChallenge expr => "unexpected token " ++ Inspect.expr expr
  | unexpectedEnd => "unexpected end of expression"
  | unknownCall name => "unknown macro %" ++ name
  | badArguments name => "invalid arguments for %" ++ name
  | badDuration text => "invalid duration '" ++ text ++ "'"
  | tooManyParameters => "too many challenge parameters"

end QualityScript
