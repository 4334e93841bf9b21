import DtgProxy.Language.Ast
import DtgProxy.Lib.Utf8

/-! # The lexer

The lexer works on the bytes of the source and cuts names and literals out of
its text by byte offsets.  Cutting at an offset inside a character panics.  The
loop over the source is given as many rounds as the source has bytes, and one
more to notice the end.
-/
namespace DtgProxy.Language

open Lib

inductive TokenKind where
  | word (value : String)
  | parameter (value : String)
  | integer (value : Int64)
  | string (value : String)
  | symbol (value : Char)
  | arrowRight
  | arrowLeft
  | end
deriving DecidableEq, Repr

structure Token where
  kind : TokenKind
  start : ℕ
  stop : ℕ
deriving DecidableEq, Repr

/-! ### Bytes -/

def isAsciiWhitespace (b : UInt8) : Bool :=
  b == 0x20 || b == 0x09 || b == 0x0A || b == 0x0C || b == 0x0D

def isAsciiDigit (b : UInt8) : Bool := 0x30 ≤ b && b ≤ 0x39

def isAsciiAlphabetic (b : UInt8) : Bool :=
  (0x41 ≤ b && b ≤ 0x5A) || (0x61 ≤ b && b ≤ 0x7A)

def isNameByte (b : UInt8) : Bool := isAsciiAlphabetic b || isAsciiDigit b || b == 0x5F

def symbolBytes : List UInt8 :=
  [0x28, 0x29, 0x5B, 0x5D, 0x7B, 0x7D, 0x3A, 0x2C, 0x2E, 0x3D, 0x2A, 0x2B, 0x2D, 0x2F, 0x21]

/-! ### Cutting the text -/

/-- The text between two byte offsets. -/
def sliceText (source : List Char) (start stop : ℕ) : Outcome String :=
  match Utf8.slice source start stop with
  | some part => .ok (String.ofList part)
  | none => .error (.panic "byte index is not a char boundary")

def charAt (source : List Char) (cursor : ℕ) : Outcome Char :=
  match Utf8.suffix source cursor with
  | none => .error (.panic "byte index is not a char boundary")
  | some [] => .error (.panic "cursor is within the source")
  | some (c :: _) => .ok c

def decimal (digits : List Char) : ℕ :=
  digits.foldl (fun value c => 10 * value + (c.toNat - '0'.toNat)) 0

/-- The `i64` that a literal of digits with an optional minus sign denotes. -/
def parseInteger (literal : String) : Option Int64 :=
  match literal.toList with
  | '-' :: digits =>
    if decimal digits ≤ 2 ^ 63 then some (Int64.ofInt (-(decimal digits : Int))) else none
  | digits => if decimal digits < 2 ^ 63 then some (Int64.ofNat (decimal digits)) else none

/-! ### One token -/

/-- One round of the loop over a string literal: the cursor and the text read so
far.  The literal ends at its quote; a backslash protects what follows it. -/
def stringRound (source : List Char) (quote : UInt8) (start cursor : ℕ) (value : List Char) :
    Outcome ((ℕ × List Char) ⊕ (ℕ × List Char)) :=
  match (Utf8.bytes source)[cursor]? with
  | none => .error (.error (.lex "unterminated string literal" start cursor))
  | some b =>
    if b = quote then .ok (.inr (cursor + 1, value))
    else
      let cursor := if b = 0x5C then cursor + 1 else cursor
      if cursor = (Utf8.bytes source).length then
        .error (.error (.lex "unterminated string literal" start cursor))
      else do
        let c ← charAt source cursor
        .ok (.inl (cursor + c.utf8Size, value ++ [c]))

def lexString (source : List Char) (quote : UInt8) (start : ℕ) :
    ℕ → ℕ → List Char → Outcome (TokenKind × ℕ)
  | 0, _, _ => .error .unfinished
  | fuel + 1, cursor, value => do
    match ← stringRound source quote start cursor value with
    | .inl (cursor, value) => lexString source quote start fuel cursor value
    | .inr (cursor, value) => .ok (.string (String.ofList value), cursor)

def lexParameter (source : List Char) (start : ℕ) : Outcome (TokenKind × ℕ) :=
  let cursor := Utf8.scan source isNameByte (start + 1)
  if start + 1 = cursor then
    .error (.error (.lex "parameter name expected after '$'" start cursor))
  else do
    let name ← sliceText source (start + 1) cursor
    .ok (.parameter name, cursor)

def lexInteger (source : List Char) (b : UInt8) (start : ℕ) : Outcome (TokenKind × ℕ) := do
  let cursor := Utf8.scan source isAsciiDigit (if b = 0x2D then start + 1 else start)
  let literal ← sliceText source start cursor
  match parseInteger literal with
  | some value => .ok (.integer value, cursor)
  | none => .error (.error (.lex "integer literal is out of range" start cursor))

def lexWord (source : List Char) (start : ℕ) : Outcome (TokenKind × ℕ) := do
  let cursor := Utf8.scan source isNameByte (start + 1)
  let word ← sliceText source start cursor
  .ok (.word word, cursor)

/-- The token that starts with the byte `b` at `start`, and the offset behind it. -/
def lexToken (source : List Char) (b : UInt8) (start : ℕ) : Outcome (TokenKind × ℕ) :=
  let next := (Utf8.bytes source)[start + 1]?
  if b = 0x24 then lexParameter source start
  else if isAsciiDigit b || (b == 0x2D && next.any isAsciiDigit) then lexInteger source b start
  else if b = 0x27 ∨ b = 0x22 then
    lexString source b start (Utf8.bytes source).length (start + 1) []
  else if isAsciiAlphabetic b || b == 0x5F then lexWord source start
  else if b = 0x2D ∧ next = some 0x3E then .ok (.arrowRight, start + 2)
  else if b = 0x3C ∧ next = some 0x2D then .ok (.arrowLeft, start + 2)
  else if b ∈ symbolBytes then .ok (.symbol (Char.ofNat b.toNat), start + 1)
  else .error (.error (.lex "unsupported character" start (start + 1)))

/-! ### The token list -/

def maxSourceBytes : ℕ := 1048576
def maxTokens : ℕ := 32768

/-- The loop over the source from an offset on, with the tokens found so far. -/
def lexFrom (source : List Char) : ℕ → ℕ → List Token → Outcome (List Token)
  | 0, _, _ => .error .unfinished
  | fuel + 1, cursor, tokens =>
    match (Utf8.bytes source)[cursor]? with
    | none => .ok tokens
    | some b =>
      if isAsciiWhitespace b then lexFrom source fuel (cursor + 1) tokens
      else do
        let (kind, stop) ← lexToken source b cursor
        if maxTokens < tokens.length + 1 then
          .error (.error (.limit "token count exceeds language limit" cursor stop))
        else lexFrom source fuel stop (tokens ++ [⟨kind, cursor, stop⟩])

def lex (source : String) : Outcome (List Token) :=
  let length := (Utf8.bytes source.toList).length
  if maxSourceBytes < length then
    .error (.error (.limit "source exceeds the 1 MiB language limit" 0 length))
  else do
    let tokens ← lexFrom source.toList (length + 1) 0 []
    .ok (tokens ++ [⟨.end, length, length⟩])

end DtgProxy.Language
