import CommandGrammar.Grammar
import CommandGrammar.Digest
import CommandGrammar.Text.Escaped

/-!
# Listings of grammars

A listing has one line for each production, in order, then the meaning of the value
terminal and the start rule. The same grammar has the same listing, so the digest
of the listing identifies it.
-/

namespace CommandGrammar

namespace Grammar

/-- The name under which a node is referred to. -/
def nameOf (grammar : Grammar) (id : NodeId) : String :=
  match grammar.production? id with
  | some production => production.name
  | none => "<missing #" ++ toString id ++ ">"

/-- How the bounds of a repetition are written. -/
def boundsText : Nat → Option Nat → String
  | 0, none => "*"
  | 1, none => "+"
  | min, none => " ~ " ++ toString min ++ ".."
  | min, some max => " ~ " ++ toString min ++ ".." ++ toString max

/-- Parentheses around a part of a larger expression. -/
def parenthesized (nested : Bool) (text : String) : String :=
  if nested then "(" ++ text ++ ")" else text

mutual

/-- The text of an expression; sequences and choices inside others stand in parentheses. -/
def exprText (grammar : Grammar) (nested : Bool) : Expr → String
  | .literal text => Text.escaped text
  | .value => "value"
  | .rule id => grammar.nameOf id
  | .seq items => parenthesized nested (Text.join " " (exprTexts grammar items))
  | .alt items => parenthesized nested (Text.join " | " (exprTexts grammar items))
  | .optional inner => grammar.exprText true inner ++ "?"
  | .repetition inner min max => grammar.exprText true inner ++ boundsText min max

/-- The texts of the parts of an expression. -/
def exprTexts (grammar : Grammar) : List Expr → List String
  | [] => []
  | item :: rest => grammar.exprText true item :: exprTexts grammar rest

end

/-- The line of a production. -/
def productionText (grammar : Grammar) (production : Production) : String :=
  production.name ++ " : " ++ grammar.exprText false production.expr ++ "\n"

/-- The listing of a grammar. -/
def listing (grammar : Grammar) : String :=
  String.join (grammar.productions.map grammar.productionText) ++
    "?value : /\\S+/\n" ++
    match grammar.production? grammar.start with
    | some production => "?start : " ++ production.name ++ "\n"
    | none => ""

/-- The digest of the listing in hexadecimal digits. -/
def fingerprint (grammar : Grammar) : String :=
  Digest.hexadecimal (Digest.sha256 grammar.listing.toUTF8.toList)

end Grammar

end CommandGrammar
