import Stepwise.View.Fragment

/-!
# View - Tokens

Fragments are split into tokens for highlighting.  White space and brackets at
both ends of a fragment are told by their characters; what is left in the middle
is told by the node that produced it.

Main definitions:

- `Token` and its `Category`.
- `Fragment.tokens` and `tagTokens`, which keep the text.
- `tagChecked`, where fragments may come from empty places.
-/

namespace Stepwise

/-- What a token is, for highlighting. -/
inductive Category where
  | keyword
  | identifier
  | numeral
  | string
  | operator
  | bracket
  | semicolon
  | type
  | whitespace
  /-- Text that no other category claims. -/
  | plain
  deriving DecidableEq, Repr, Inhabited

/-- The name of a category. -/
def Category.name : Category → String
  | keyword => "keyword"
  | identifier => "identifier"
  | numeral => "numeral"
  | string => "string"
  | operator => "operator"
  | bracket => "bracket"
  | semicolon => "semicolon"
  | type => "type"
  | whitespace => "whitespace"
  | plain => "text"

/-- A piece of text with its category. -/
structure Token where
  text : String
  category : Category
  deriving DecidableEq, Repr, Inhabited

namespace Token

/-- The text of a list of tokens. -/
def join (tokens : List Token) : String :=
  String.join (tokens.map (·.text))

/-- Whether a character is a bracket. -/
def isBracket (c : Char) : Bool :=
  c == '(' || c == ')' || c == '[' || c == ']' || c == '\x7b' || c == '\x7d'

/-- Whether a character is white space between tokens. -/
def isSpace (c : Char) : Bool :=
  c == ' ' || c == '\n' || c == '\t' || c == '\r'

/-- Whether a character is told by itself. -/
def isTrivia (c : Char) : Bool :=
  isBracket c || isSpace c

/-- Split characters into runs of brackets and runs of others. -/
def runs : List Char → List (Bool × List Char)
  | [] => []
  | c :: cs =>
    match runs cs with
    | [] => [(isBracket c, [c])]
    | (brackets, run) :: rest =>
      if brackets = isBracket c then (brackets, c :: run) :: rest
      else (isBracket c, [c]) :: (brackets, run) :: rest

/-- The tokens of white space and brackets. -/
def tagTrivia (cs : List Char) : List Token :=
  (runs cs).map fun (brackets, run) =>
    ⟨String.ofList run, if brackets then .bracket else .whitespace⟩

/-- The tokens of the middle of a constant's text. -/
def ofConstant (core : List Char) : Value → List Token
  | .null => [⟨String.ofList core, .keyword⟩]
  | .string _ => [⟨String.ofList core, .string⟩]
  | _ =>
    match core with
    | '-' :: digits => [⟨"-", .operator⟩, ⟨String.ofList digits, .numeral⟩]
    | core => [⟨String.ofList core, .numeral⟩]

/-- The category of the middle of a fragment of a statement. -/
def ofStmtCore (core : String) : Stmt → Category
  | .declaration _ t _ _ =>
    if core = t.text then .type else if core = "=" then .operator else .plain
  | .ifThen .. => if core = "if" then .keyword else .plain
  | .forLoop .. => if core = "for" then .keyword else .plain
  | _ => .plain

/-- The category of the middle of a fragment of an empty place reserved for a
variant. -/
def ofVariantCore (core : String) : Variant → Category
  | .identifier => .identifier
  | .binary | .assign | .addAssign | .increment => .operator
  | .invoke => if core = "," then .operator else .plain
  | .ifThen => if core = "if" then .keyword else .plain
  | .forLoop => if core = "for" then .keyword else .plain
  | _ => .plain

/-- The tokens of the middle of a fragment. -/
def tagCore (core : List Char) (owner : Operand) : List Token :=
  let text := String.ofList core
  if core = [';'] then [⟨text, .semicolon⟩]
  else
    match owner with
    | .empty => [⟨text, .plain⟩]
    | .vacant v => [⟨text, ofVariantCore text v⟩]
    | .filled (.expr e) =>
      match e with
      | .identifier _ => [⟨text, .identifier⟩]
      | .constant c => ofConstant core c.value
      | .binary .. | .assign .. | .addAssign .. | .increment .. => [⟨text, .operator⟩]
      | .invoke .. => [⟨text, if core = [','] then .operator else .plain⟩]
      | .hole _ => [⟨text, .plain⟩]
    | .filled (.stmt s) => [⟨text, ofStmtCore text s⟩]

/-- Split characters into those before the middle, the middle, and those after
it; the middle neither starts nor ends with white space or a bracket. -/
def splitTrivia (cs : List Char) : List Char × List Char × List Char :=
  let lead := cs.takeWhile isTrivia
  let rest := (cs.dropWhile isTrivia).reverse
  (lead, (rest.dropWhile isTrivia).reverse, (rest.takeWhile isTrivia).reverse)

end Token

/-- The tokens of a fragment. -/
def Fragment.tokens (f : Fragment) : List Token :=
  let (lead, core, trail) := Token.splitTrivia f.text.toList
  Token.tagTrivia lead ++ (if core.isEmpty then [] else Token.tagCore core f.owner) ++
    Token.tagTrivia trail

/-- The tokens of a list of fragments. -/
def tagTokens (frags : List Fragment) : List Token :=
  frags.flatMap Fragment.tokens

end Stepwise
