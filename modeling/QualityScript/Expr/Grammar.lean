import QualityScript.Expr.Token

/-!
# From tokens to trees

Conditions joined by `||` hold conditions joined by `&&` or a comma, those hold comparisons, and
comparisons hold arithmetic of the usual two levels. A comparison does not chain. With `force` every
comparison is a challenge; a percent sign after one makes it a challenge that is rolled.

Each level is written over the level below, and the lowest over a reader of what stands in
parentheses, so the grammar as a whole recurses on the nesting of parentheses alone.
-/

namespace QualityScript.Grammar

/-- Reads a tree from the start of the tokens and returns the tokens after it. -/
abbrev Reader := List Token → Except ParseError (Expr × List Token)

/-- A plain word; two words spell truth values. -/
def ofWord (text : String) : Expr :=
  if text = "true" then .literal (.bool true)
  else if text = "false" then .literal (.bool false)
  else .word text

/-- One operand with its signs. -/
def factor (inner : Reader) : Reader
  | [] => .error .unexpectedEnd
  | token :: rest =>
    match token with
    | .op (.arith .sub) => (factor inner rest).map fun (e, rest) => (.neg e, rest)
    | .op (.arith .add) => factor inner rest
    | .int n => .ok (.literal (.int n), rest)
    | .float x => .ok (.literal (.float x), rest)
    | .text s => .ok (.literal (.text s), rest)
    | .ref reference _ => .ok (.ref reference, rest)
    | .aliasName name => .ok (.aliasName name, rest)
    | .word text => .ok (ofWord text, rest)
    | .call c => .ok (.call c, rest)
    | .openParen =>
      match inner rest with
      | .error e => .error e
      | .ok (e, .closeParen :: rest) => .ok (e, rest)
      | .ok _ => .error (.unterminated .parenthesis)
    | token => .error (.unexpectedToken token)

def isProduct : ArithOp → Bool
  | .mul | .div => true
  | .add | .sub => false

/-- Operands joined from the left by the operators of one level, at most `count` more of them. -/
def chain (product : Bool) (operand : Reader) : Nat → Expr → Reader
  | count + 1, lhs, .op (.arith op) :: rest =>
    if isProduct op = product then
      match operand rest with
      | .error e => .error e
      | .ok (rhs, rest) => chain product operand count (.arith op lhs rhs) rest
    else .ok (lhs, .op (.arith op) :: rest)
  | _, lhs, rest => .ok (lhs, rest)

/-- Operands joined by the operators of one level. -/
def level (product : Bool) (operand : Reader) : Reader := fun tokens =>
  match operand tokens with
  | .error e => .error e
  | .ok (lhs, rest) => chain product operand rest.length lhs rest

def arith (inner : Reader) : Reader := level false (level true (factor inner))

def takePercent : List Token → Bool × List Token
  | .percent :: rest => (true, rest)
  | rest => (false, rest)

/-- A comparison, a challenge, or arithmetic alone. -/
def comparison (force : Bool) (inner : Reader) : Reader := fun tokens =>
  match arith inner tokens with
  | .error e => .error e
  | .ok (lhs, .op (.challenge direction) :: rest) =>
    match arith inner rest with
    | .error e => .error e
    | .ok (target, rest) =>
      let (roll, rest) := takePercent rest
      .ok (.challenge (.plain lhs direction target roll), rest)
  | .ok (lhs, .op (.compare op) :: rest) =>
    match arith inner rest with
    | .error e => .error e
    | .ok (rhs, rest) =>
      let (roll, rest) := takePercent rest
      if roll || force then .ok (.challenge (.plain lhs op.direction rhs roll), rest)
      else .ok (.compare op lhs rhs, rest)
  | .ok (lhs, rest) => .ok (lhs, rest)

/-- A comparison with any number of negations in front. -/
def unary (force : Bool) (inner : Reader) : Reader
  | .op .not :: rest => (unary force inner rest).map fun (e, rest) => (.not e, rest)
  | tokens => comparison force inner tokens

/-- Further items after a joining token, at most `count`, last item first. -/
def further (joins : Token → Bool) (item : Reader) :
    Nat → List Expr → List Token → Except ParseError (List Expr × List Token)
  | count + 1, items, token :: rest =>
    if joins token then
      match item rest with
      | .error e => .error e
      | .ok (e, rest) => further joins item count (e :: items) rest
    else .ok (items, token :: rest)
  | _, items, rest => .ok (items, rest)

/-- Items joined by tokens of one kind; a single item stands for itself. -/
def joined (joins : Token → Bool) (build : List Expr → Expr) (item : Reader) : Reader :=
  fun tokens =>
    match item tokens with
    | .error e => .error e
    | .ok (first, rest) =>
      (further joins item rest.length [first] rest).map fun (items, rest) =>
        match items with
        | [only] => (only, rest)
        | items => (build items.reverse, rest)

def joinsAnd : Token → Bool
  | .op .and | .comma => true
  | _ => false

def joinsOr : Token → Bool
  | .op .or => true
  | _ => false

/-- Conditions joined by `||`, over a reader of what stands in parentheses. -/
def disjunction (force : Bool) (inner : Reader) : Reader :=
  joined joinsOr .or (joined joinsAnd .and (unary force inner))

/-- Conditions with parentheses nested at most `depth` deep. -/
def condition (force : Bool) : Nat → Reader
  | 0 => fun _ => .error .unexpectedEnd
  | depth + 1 => disjunction force (condition force depth)

def sum (force : Bool) (tokens : List Token) : Except ParseError (Expr × List Token) :=
  arith (condition force (tokens.length + 1)) tokens

def expression (force : Bool) (tokens : List Token) : Except ParseError (Expr × List Token) :=
  condition force (tokens.length + 1) tokens

/-- The tree alone, if no token is left. -/
def complete : Expr × List Token → Except ParseError Expr
  | (e, []) => .ok e
  | (_, token :: _) => .error (.unexpectedToken token)

/-- A condition, or a range `lo ~ hi`. -/
def rangeOrExpression (force : Bool) (tokens : List Token) : Except ParseError Expr :=
  match expression force tokens with
  | .error e => .error e
  | .ok (lo, .tilde :: rest) =>
    match sum force rest with
    | .error e => .error e
    | .ok (hi, rest) => complete (.range lo hi, rest)
  | .ok (e, rest) => complete (e, rest)

def direction? : Token → Option Direction
  | .op (.challenge direction) => some direction
  | .op (.compare op) => some op.direction
  | _ => none

/-- `subject operator target` and perhaps a percent sign, with nothing after it. -/
def challengeHead (tokens : List Token) : Except ParseError Challenge :=
  match sum true tokens with
  | .error e => .error e
  | .ok (_, []) => .error .unexpectedEnd
  | .ok (subject, token :: rest) =>
    match direction? token with
    | none => .error (.unexpectedToken token)
    | some direction =>
      match sum true rest with
      | .error e => .error e
      | .ok (target, rest) =>
        match takePercent rest with
        | (_, token :: _) => .error (.unexpectedToken token)
        | (roll, []) => .ok (.plain subject direction target roll)

def isComma : Token → Bool
  | .comma => true
  | _ => false

def isSemicolon : Token → Bool
  | .semicolon => true
  | _ => false

def isChange : Token → Bool
  | .op (.change _) => true
  | _ => false

/-- The groups of tokens between commas; there is always at least one. -/
def groups : List Token → List (List Token)
  | [] => [[]]
  | token :: rest =>
    if isComma token then [] :: groups rest
    else
      match groups rest with
      | [] => [[token]]
      | group :: more => (token :: group) :: more

/-- One parameter of a challenge; an empty group leaves it out. -/
def parameter? (group : List Token) : Except ParseError (Option Expr) :=
  if group.isEmpty then .ok none
  else
    match sum false group with
    | .error e => .error e
    | .ok result => (complete result).map some

/-- The parameters of a challenge: margin, lower cap, upper cap and pivot. -/
def parameters (c : Challenge) : List (List Token) → Except ParseError Challenge
  | [] => .ok c
  | [margin] => do
    let margin ← parameter? margin
    return { c with margin }
  | [margin, minCap] => do
    let margin ← parameter? margin
    let minCap ← parameter? minCap
    return { c with margin, minCap }
  | [margin, minCap, maxCap] => do
    let margin ← parameter? margin
    let minCap ← parameter? minCap
    let maxCap ← parameter? maxCap
    return { c with margin, minCap, maxCap }
  | [margin, minCap, maxCap, pivot] => do
    let margin ← parameter? margin
    let minCap ← parameter? minCap
    let maxCap ← parameter? maxCap
    let pivot ← parameter? pivot
    return { c with margin, minCap, maxCap, pivot }
  | _ => .error .tooManyParameters

/-- The tokens without a percent sign at their end, and whether there was one. -/
def dropFinalPercent (tokens : List Token) : Bool × List Token :=
  match tokens.getLast? with
  | some .percent => (true, tokens.dropLast)
  | _ => (false, tokens)

/-- A challenge with parameters after a semicolon. A percent sign at the very end rolls it too. -/
def challengeWith (head params : List Token) : Except ParseError Expr :=
  let (roll, params) := dropFinalPercent params
  match challengeHead head with
  | .error e => .error e
  | .ok c => (parameters { c with roll := c.roll || roll } (groups params)).map .challenge

def effectTarget? : Token → Option (EffectTarget × Notes)
  | .ref reference notes => some (.quality reference, notes)
  | .call (.all category) => some (.category category, .none)
  | _ => none

/-- The amount of a change; `++` and `--` have none. -/
def amount? (op : ChangeOp) (tokens : List Token) : Except ParseError (Option Expr × List Token) :=
  match op with
  | .increment | .decrement => .ok (none, tokens)
  | _ => (expression false tokens).map fun (e, rest) => (some e, rest)

def effect (tokens : List Token) : Except ParseError EffectExpr :=
  match tokens with
  | [] => .error .unexpectedEnd
  | first :: rest =>
    match effectTarget? first, rest with
    | none, _ => .error (.unexpectedToken first)
    | some _, [] => .error .unexpectedEnd
    | some (target, notes), .op (.change op) :: rest =>
      match amount? op rest with
      | .error e => .error e
      | .ok (_, token :: _) => .error (.unexpectedToken token)
      | .ok (amount, []) => .ok ⟨target, notes, op, amount⟩
    | some _, token :: _ => .error (.unexpectedToken token)

/-- The tree that the tokens as a whole spell: a challenge with parameters where there is a
semicolon, an effect where something is changed, else a condition or a range. -/
def tree (force : Bool) (tokens : List Token) : Except ParseError Expr :=
  if tokens.isEmpty then .error .unexpectedEnd
  else if tokens.any isSemicolon then
    challengeWith (tokens.takeWhile (! isSemicolon ·)) ((tokens.dropWhile (! isSemicolon ·)).drop 1)
  else if tokens.any isChange then ((groups tokens).mapM effect).map .effect
  else rangeOrExpression force tokens

end QualityScript.Grammar
