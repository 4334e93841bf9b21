import DtgProxy.Language.Lexer

/-! # The parser

A recursive-descent parser over the token list.  Its state is the cursor and the
numbers of the next anonymous node and relationship.  Reading the current token
panics when the cursor is behind the list.  A loop is given one round more than
there are tokens.
-/
namespace DtgProxy.Language

open Lib

structure ParserState where
  cursor : ℕ
  anonymousNodes : ℕ
  anonymousRelationships : ℕ
deriving DecidableEq, Repr

abbrev Parser := StateT ParserState Outcome

def eqIgnoreAsciiCase (a b : String) : Bool :=
  decide (a.toList.map Char.toLower = b.toList.map Char.toLower)

def Pattern.extend (pattern : Pattern) (relationship : RelationshipPattern)
    (node : NodePattern) : Pattern where
  nodes := pattern.nodes ++ [node]
  relationships := pattern.relationships ++ [relationship]
  length_nodes := by simp [pattern.length_nodes]

namespace TokenKind

def isWord (word : String) : TokenKind → Bool
  | .word value => eqIgnoreAsciiCase value word
  | _ => false

def isSymbol (symbol : Char) : TokenKind → Bool
  | .symbol value => decide (value = symbol)
  | _ => false

end TokenKind

namespace Parser

section Primitives

variable (tokens : List Token)

def current : Parser Token := fun s => do
  let token ← index tokens s.cursor
  .ok (token, s)

def advance : Parser Unit := fun s => .ok ((), { s with cursor := s.cursor + 1 })

/-- An error at the current token. -/
def failWith {α : Type} (make : String → ℕ → ℕ → LanguageError) (message : String) : Parser α := do
  let token ← current tokens
  throw (.error (make message token.start token.stop))

def fail {α : Type} (message : String) : Parser α := failWith tokens .parse message

def at? (p : TokenKind → Bool) : Parser Bool := do
  let token ← current tokens
  pure (p token.kind)

def take (p : TokenKind → Bool) : Parser Bool := do
  let token ← current tokens
  if p token.kind then do
    advance
    pure true
  else pure false

def expect (p : TokenKind → Bool) (what : String) : Parser Unit := do
  if ← take tokens p then pure () else fail tokens (what ++ " expected")

def takeWord (word : String) : Parser Bool := take tokens (TokenKind.isWord word)

def atWord (word : String) : Parser Bool := at? tokens (TokenKind.isWord word)

def expectWord (word : String) : Parser Unit := expect tokens (TokenKind.isWord word) word

def takeSymbol (symbol : Char) : Parser Bool := take tokens (TokenKind.isSymbol symbol)

def atSymbol (symbol : Char) : Parser Bool := at? tokens (TokenKind.isSymbol symbol)

def expectSymbol (symbol : Char) : Parser Unit :=
  expect tokens (TokenKind.isSymbol symbol) ("'" ++ symbol.toString ++ "'")

def takeArrowRight : Parser Bool := take tokens (· == .arrowRight)

def takeArrowLeft : Parser Bool := take tokens (· == .arrowLeft)

def identifier : Parser String := do
  let token ← current tokens
  match token.kind with
  | .word value => do
    advance
    pure value
  | _ => fail tokens "identifier expected"

def removedWords : List String := ["DIFF", "AT", "LEGACY", "COMPAT", "V1", "V2"]

def atRemovedSyntax : Parser Bool :=
  at? tokens fun kind => removedWords.any fun word => kind.isWord word

/-- Repeat the body until it leaves the loop with a result. -/
def repeatFrom {σ ρ : Type} (body : σ → Parser (σ ⊕ ρ)) : ℕ → σ → Parser ρ
  | 0, _ => throw .unfinished
  | fuel + 1, state => do
    match ← body state with
    | .inl state => repeatFrom body fuel state
    | .inr result => pure result

def loop {σ ρ : Type} (body : σ → Parser (σ ⊕ ρ)) (state : σ) : Parser ρ :=
  repeatFrom body (tokens.length + 1) state

end Primitives

section Grammar

variable (tokens : List Token)

/-! ### Expressions -/

def kindAt (cursor : ℕ) : Option TokenKind := tokens[cursor]?.map fun token => token.kind

/-- The tokens from the cursor on are `count ( * )`. -/
def atCountStar (cursor : ℕ) : Bool :=
  match kindAt tokens cursor, kindAt tokens (cursor + 1), kindAt tokens (cursor + 2),
    kindAt tokens (cursor + 3) with
  | some (.word name), some (.symbol '('), some (.symbol '*'), some (.symbol ')') =>
    eqIgnoreAsciiCase name "count"
  | _, _, _, _ => false

def countStar : Parser Expr := do
  advance
  expectSymbol tokens '('
  expectSymbol tokens '*'
  expectSymbol tokens ')'
  pure .countStar

/-- A word that is not the start of `count(*)`. -/
def wordExpr (value : String) : Expr :=
  if eqIgnoreAsciiCase value "true" then .boolean true
  else if eqIgnoreAsciiCase value "false" then .boolean false
  else if eqIgnoreAsciiCase value "null" then .null
  else .column value

/-- An expression without a property access. -/
def primary : Parser Expr := do
  let token ← current tokens
  let s ← get
  match token.kind with
  | .word value =>
    if eqIgnoreAsciiCase value "count" && atCountStar tokens s.cursor then countStar tokens
    else do
      advance
      pure (wordExpr value)
  | .parameter value => do
    advance
    pure (.parameter value)
  | .integer value => do
    advance
    pure (.integer value)
  | .string value => do
    advance
    pure (.string value)
  | _ => fail tokens "expression expected"

def expr : Parser Expr := do
  let first ← primary tokens
  if ← takeSymbol tokens '.' then do
    let name ← identifier tokens
    match first with
    | .column input => pure (.property input name)
    | _ => fail tokens "property receiver must be a variable"
  else pure first

/-! ### Patterns -/

def maxNesting : ℕ := 128

def propertyMap : Parser Properties := do
  let map ← loop tokens (fun (map, depth) => do
    if ← atSymbol tokens '}' then pure (.inr map)
    else if depth > maxNesting then
      failWith tokens .limit "property nesting exceeds limit"
    else do
      let key ← identifier tokens
      expectSymbol tokens ':'
      let value ← expr tokens
      if ← takeSymbol tokens ',' then pure (.inl (map.insert key value, depth + 1))
      else pure (.inr (map.insert key value))) ((∅, 1) : Properties × ℕ)
  expectSymbol tokens '}'
  pure map

def optionalProperties : Parser Properties := do
  if ← takeSymbol tokens '{' then propertyMap tokens else pure ∅

def colonNames : Parser (List String) :=
  loop tokens (fun names => do
    if ← takeSymbol tokens ':' then do
      let name ← identifier tokens
      pure (.inl (names ++ [name]))
    else pure (.inr names)) []

def anonymousNode : Parser String := fun s =>
  .ok ("@anonymous_node:" ++ toString s.anonymousNodes,
    { s with anonymousNodes := s.anonymousNodes + 1 })

def anonymousRelationship : Parser String := fun s =>
  .ok ("@anonymous_relationship:" ++ toString s.anonymousRelationships,
    { s with anonymousRelationships := s.anonymousRelationships + 1 })

/-- The variable of a pattern element, or the next anonymous one when the element
goes on with a colon or ends. -/
def elementVariable (close : Char) (anonymous : Parser String) : Parser String := do
  if ← at? tokens fun kind => kind.isSymbol ':' || kind.isSymbol close then anonymous
  else identifier tokens

def nodePattern : Parser NodePattern := do
  expectSymbol tokens '('
  let var ← elementVariable tokens ')' anonymousNode
  let labels ← colonNames tokens
  let properties ← optionalProperties tokens
  expectSymbol tokens ')'
  pure ⟨var, labels, properties⟩

def relationshipPattern : Parser RelationshipPattern := do
  let var ← elementVariable tokens ']' anonymousRelationship
  let types ← colonNames tokens
  let properties ← optionalProperties tokens
  pure ⟨var, types, properties, .outgoing⟩

/-- The start of a relationship; the result says whether it has an arrow to the left. -/
def openRelationship : Parser Bool := do
  if ← takeArrowLeft tokens then pure true
  else do
    expectSymbol tokens '-'
    pure false

def closeDirection (incoming : Bool) : Parser RelationshipDirection := do
  if incoming then do
    expectSymbol tokens '-'
    pure .incoming
  else if ← takeArrowRight tokens then pure .outgoing
  else if ← takeSymbol tokens '-' then pure .either
  else fail tokens "relationship direction expected"

def pattern : Parser Pattern := do
  let first ← nodePattern tokens
  loop tokens (fun pattern => do
    if ← at? tokens fun kind => kind.isSymbol '-' || kind == .arrowLeft then do
      let incoming ← openRelationship tokens
      expectSymbol tokens '['
      let relationship ← relationshipPattern tokens
      expectSymbol tokens ']'
      let direction ← closeDirection tokens incoming
      let node ← nodePattern tokens
      pure (.inl (pattern.extend { relationship with direction } node))
    else pure (.inr pattern)) (⟨[first], [], rfl⟩ : Pattern)

/-! ### Scopes -/

def axis : Parser Axis := do
  if ← takeWord tokens "VALID_TIME" then pure .valid
  else if ← takeWord tokens "SYSTEM_TIME" then pure .system
  else fail tokens "VALID_TIME or SYSTEM_TIME expected"

def bounds : Parser (Expr × Expr) := do
  expectWord tokens "BETWEEN"
  let start ← expr tokens
  expectWord tokens "AND"
  let stop ← expr tokens
  pure (start, stop)

def scope : Parser Scope := do
  if ← takeWord tokens "CHANGES" then do
    expectWord tokens "FOR"
    let axis ← axis tokens
    let (start, stop) ← bounds tokens
    pure ⟨axis, .changes start stop⟩
  else do
    expectWord tokens "FOR"
    let axis ← axis tokens
    if ← takeWord tokens "AS" then do
      expectWord tokens "OF"
      let time ← expr tokens
      pure ⟨axis, .asOf time⟩
    else do
      let (start, stop) ← bounds tokens
      if axis = .system then fail tokens "SYSTEM_TIME supports only AS OF"
      else pure ⟨axis, .between start stop⟩

/-- Scopes as long as the current token starts one. -/
def scopesWhile (starts : TokenKind → Bool) : Parser (List Scope) :=
  loop tokens (fun scopes => do
    if ← at? tokens starts then do
      let scope ← scope tokens
      pure (.inl (scopes ++ [scope]))
    else pure (.inr scopes)) []

def validFrom : Parser Expr := do
  expectWord tokens "VALID"
  if ← takeWord tokens "TO" then
    failWith tokens .removed "VALID TO is removed; writes use VALID FROM"
  else do
    expectWord tokens "FROM"
    expr tokens

/-! ### Statements -/

def matchClauses : Parser (List Match) := do
  let clauses ← loop tokens (fun clauses => do
    if ← takeWord tokens "MATCH" then do
      let pattern ← pattern tokens
      let scopes ← scopesWhile tokens fun kind => kind.isWord "FOR"
      pure (.inl (clauses ++ [⟨pattern, scopes⟩]))
    else pure (.inr clauses)) ([] : List Match)
  if clauses.isEmpty then fail tokens "MATCH is required for a query" else pure clauses

def whereClause : Parser (Option (Expr × Expr)) := do
  if ← takeWord tokens "WHERE" then do
    let left ← expr tokens
    expectSymbol tokens '='
    let right ← expr tokens
    pure (some (left, right))
  else pure none

def commaSeparated {α : Type} (element : Parser α) : Parser (List α) :=
  loop tokens (fun elements => do
    let next ← element
    if ← takeSymbol tokens ',' then pure (.inl (elements ++ [next]))
    else pure (.inr (elements ++ [next]))) []

def orderKey : Parser OrderKey := do
  let expression ← expr tokens
  if ← takeWord tokens "DESC" then pure ⟨expression, .descending⟩
  else do
    let _ ← takeWord tokens "ASC"
    pure ⟨expression, .ascending⟩

def orderBy : Parser (List OrderKey) := do
  if ← takeWord tokens "ORDER" then do
    expectWord tokens "BY"
    commaSeparated tokens (orderKey tokens)
  else pure []

def rejectRemovedSyntax : Parser Unit := do
  if ← atRemovedSyntax tokens then
    failWith tokens .removed "removed compatibility or temporal syntax"
  else pure ()

def queryTail (scopes : List Scope) (clauses : List Match) : Parser Query := do
  let condition ← whereClause tokens
  rejectRemovedSyntax tokens
  expectWord tokens "RETURN"
  let returns ← commaSeparated tokens (expr tokens)
  let keys ← orderBy tokens
  pure ⟨scopes, clauses, condition, returns, keys⟩

def query : Parser Query := do
  let scopes ← scopesWhile tokens fun kind => kind.isWord "FOR" || kind.isWord "CHANGES"
  let clauses ← matchClauses tokens
  queryTail tokens scopes clauses

def createWrite (clauses : List Match) : Parser Statement := do
  expectWord tokens "CREATE"
  let pattern ← pattern tokens
  let time ← validFrom tokens
  match clauses, pattern.relationships, pattern.nodes with
  | [], [], [node] => pure (.write (.create node time))
  | _, _, _ => pure (.write (.createRelationship clauses pattern time))

/-- `variable.property =`, the target of an assignment. -/
def assignmentTarget : Parser (String × String) := do
  let var ← identifier tokens
  expectSymbol tokens '.'
  let property ← identifier tokens
  expectSymbol tokens '='
  pure (var, property)

def setProperties : Parser (String × Properties) := do
  let (var, property) ← assignmentTarget tokens
  let value ← expr tokens
  let properties ← loop tokens (fun properties => do
    if ← takeSymbol tokens ',' then do
      let (target, property) ← assignmentTarget tokens
      if target ≠ var then fail tokens "SET assignments must share one target"
      else do
        let value ← expr tokens
        pure (.inl (properties.insert property value))
    else pure (.inr properties)) ((∅ : Properties).insert property value)
  pure (var, properties)

def writeAfterMatches (clauses : List Match) : Parser Statement := do
  if ← takeWord tokens "SET" then do
    let (var, properties) ← setProperties tokens
    let time ← validFrom tokens
    pure (.write (.set clauses var properties time))
  else do
    expectWord tokens "DELETE"
    let var ← identifier tokens
    let time ← validFrom tokens
    pure (.write (.delete clauses var time))

def matchLeadingStatement : Parser Statement := do
  let clauses ← matchClauses tokens
  if ← at? tokens fun kind => kind.isWord "SET" || kind.isWord "DELETE" then
    writeAfterMatches tokens clauses
  else if ← atWord tokens "CREATE" then createWrite tokens clauses
  else do
    let query ← queryTail tokens [] clauses
    pure (.query query)

def submit : Parser Statement := do
  expectWord tokens "ANALYTICS"
  let algorithm ← identifier tokens
  expectWord tokens "ASYNC"
  pure (.submitAnalytics algorithm)

/-- The first part of a procedure name, which may be written as a parameter. -/
def procedureHead : Parser String := do
  let token ← current tokens
  match token.kind with
  | .parameter value => do
    advance
    pure ("$" ++ value)
  | _ => identifier tokens

/-- Arguments are skipped up to the first closing parenthesis. -/
def skipArguments : Parser Unit :=
  loop tokens (fun _ => do
    if ← takeSymbol tokens ')' then pure (.inr ())
    else if ← at? tokens (· == .end) then fail tokens "unterminated procedure call"
    else do
      advance
      pure (.inl ())) ()

def optionalArguments : Parser Unit := do
  if ← takeSymbol tokens '(' then skipArguments tokens else pure ()

def procedureName : Parser String := do
  let head ← procedureHead tokens
  let name ← loop tokens (fun name => do
    if ← takeSymbol tokens '.' then do
      let part ← identifier tokens
      pure (.inl (name ++ "." ++ part))
    else pure (.inr name)) head
  optionalArguments tokens
  pure name

def statement : Parser Statement := do
  if ← takeWord tokens "BEGIN" then pure (.boundary .begin)
  else if ← takeWord tokens "COMMIT" then pure (.boundary .commit)
  else if ← takeWord tokens "ROLLBACK" then pure (.boundary .rollback)
  else if ← takeWord tokens "CALL" then do
    let name ← procedureName tokens
    pure (.procedure name)
  else if ← takeWord tokens "SUBMIT" then submit tokens
  else if ← atWord tokens "CREATE" then createWrite tokens []
  else if ← atWord tokens "MATCH" then matchLeadingStatement tokens
  else do
    let query ← query tokens
    pure (.query query)

def useGraph : Parser (Option String) := do
  if ← takeWord tokens "USE" then do
    let name ← identifier tokens
    pure (some name)
  else pure none

def program : Parser Program := do
  rejectRemovedSyntax tokens
  let graph ← useGraph tokens
  rejectRemovedSyntax tokens
  let statement ← statement tokens
  if ← at? tokens (· == .end) then pure ⟨graph, statement⟩
  else do
    rejectRemovedSyntax tokens
    fail tokens "unexpected trailing input"

end Grammar

end Parser

def parse (tokens : List Token) : Outcome Program := do
  let (program, _) ← (Parser.program tokens).run ⟨0, 0, 0⟩
  .ok program

end DtgProxy.Language
