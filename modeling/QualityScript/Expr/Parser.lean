import QualityScript.Expr.Lexer
import QualityScript.Expr.Grammar

/-!
# From text to trees

A text is cut into tokens and the tokens give the tree. The arguments of a call are read the same
way, from the text between its square brackets. That text has fewer opening brackets than the whole,
and so has every text put together from parts of it: the number of opening brackets bounds how deep
calls can nest.
-/

namespace QualityScript

open Text

namespace Call

/-- Reads an expression from a text; with `true` comparisons are challenges. -/
abbrev ExprReader := Bool → List Char → Except ParseError Expr

def challengeOnly : Expr → Except ParseError Challenge
  | .challenge c => .ok c
  | other => .error (.noChallenge other)

/-- A category name, which must not be blank. -/
def readCategory (name : String) (main : List Char) : Except ParseError String :=
  if main.isEmpty then .error (.badArguments name) else .ok (String.ofList main)

/-- The options that are left as one condition, joined by commas again. -/
def readFilter (read : ExprReader) (options : List (List Char)) : Except ParseError (Option Expr) :=
  if options.isEmpty then .ok none
  else (read false ([',', ' '].intercalate options)).map some

/-- The first option as a count: any expression that decides nothing. -/
def readCount? (read : ExprReader) : List (List Char) → Option Expr
  | [] => none
  | first :: _ =>
    match read false first with
    | .ok e => if e.isCondition then none else some e
    | .error _ => none

/-- An amount and a unit, such as `30m` or `@hours h`. -/
def readDuration (read : ExprReader) (text : List Char) : Except ParseError (Expr × DurationUnit) :=
  match text.getLast?.bind DurationUnit.ofSuffix? with
  | none => .error (.badDuration (String.ofList text))
  | some unit =>
    let amount := trim text.dropLast
    if amount.isEmpty then .error (.badDuration (String.ofList text))
    else (read false amount).map fun e => (e, unit)

/-- An effect and the time after which it happens, `effect : duration`. -/
def readSchedule (read : ExprReader) (name : String) (kind : PendingKind) (main : List Char) :
    Except ParseError Call :=
  match breakTopLevel? ':' main with
  | none => .error (.badArguments name)
  | some (effect, after) =>
    match read false effect with
    | .error e => .error e
    | .ok (.effect effects) =>
      (readDuration read (trim after)).map fun (amount, unit) => .schedule kind effects amount unit
    | .ok _ => .error (.badArguments name)

/-- The arguments and the options of a call, without blanks; blank options do not count. -/
def splitArguments (arguments : List Char) : List Char × List (List Char) :=
  let (main, options) := (breakTopLevel? ';' arguments).getD (arguments, [])
  (trim main, ((splitTopLevel ',' options).map trim).filter fun o => !o.isEmpty)

/-- Reads the call with a name, in any case of letters, from the text of its arguments. -/
def read (read : ExprReader) (name : String) (arguments : List Char) : Except ParseError Call :=
  let (main, options) := splitArguments arguments
  match lowerAscii name with
  | "random" =>
    (read false main).map fun chance =>
      .random chance (options.any fun o => eqIgnoringCase (String.ofList o) "invert")
  | "pick" =>
    let count := readCount? read options
    let options := if count.isSome then options.drop 1 else options
    match readCategory name main with
    | .error e => .error e
    | .ok category => (readFilter read options).map fun filter => .pick category count filter
  | "roll" =>
    match readCategory name main with
    | .error e => .error e
    | .ok category => (readFilter read options).map fun filter => .roll category filter
  | "list" =>
    let separator := options.head?.bind fun o => Separator.ofWord? (String.ofList o)
    let options := if separator.isSome then options.drop 1 else options
    match readCategory name main with
    | .error e => .error e
    | .ok category =>
      (readFilter read options).map fun filter => .list category (separator.getD .comma) filter
  | "all" => (readCategory name main).map .all
  | "schedule" => readSchedule read name .schedule main
  | "reset" => readSchedule read name .reset main
  | "chance" =>
    match read true main with
    | .error e => .error e
    | .ok e => (challengeOnly e).map .chance
  | _ => .error (.unknownCall name)

end Call

namespace Expr

/-- Reads an expression whose calls nest less than `depth` deep. -/
def readAt : Nat → Call.ExprReader
  | 0 => fun _ _ => .error .unexpectedEnd
  | depth + 1 => fun force text =>
    match Lexer.tokens (Call.read (readAt depth)) text with
    | .error e => .error e
    | .ok tokens => Grammar.tree force tokens

/-- Reads an expression; with `force` comparisons are challenges. -/
def parseWith (force : Bool) (text : List Char) : Except ParseError Expr :=
  readAt (text.count '[' + 1) force text

def parse (text : String) : Except ParseError Expr := parseWith false text.toList

/-- Reads a challenge; plain comparisons are challenges too. -/
def parseChallenge (text : String) : Except ParseError Challenge :=
  match parseWith true text.toList with
  | .error e => .error e
  | .ok e => Call.challengeOnly e

end Expr

end QualityScript
