import DtgProxy.Language.Ir

/-! # Syntax trees

What the parser produces and semantic analysis and normalization read, with the
errors of the front end.  A pattern is a chain: it has one node more than it has
relationships.
-/
namespace DtgProxy.Language

open Lib

structure LanguageError where
  code : String
  message : String
  start : ℕ
  stop : ℕ
deriving DecidableEq, Repr

namespace LanguageError

def lex (message : String) (start stop : ℕ) : LanguageError :=
  ⟨"DTG-LANG-LEX", message, start, stop⟩

def parse (message : String) (start stop : ℕ) : LanguageError :=
  ⟨"DTG-LANG-PARSE", message, start, stop⟩

def removed (message : String) (start stop : ℕ) : LanguageError :=
  ⟨"DTG-LANG-REMOVED-SYNTAX", message, start, stop⟩

def limit (message : String) (start stop : ℕ) : LanguageError :=
  ⟨"DTG-LANG-LIMIT", message, start, stop⟩

def semantic (code message : String) : LanguageError := ⟨code, message, 0, 0⟩

end LanguageError

/-- How a stage of the front end can fail to produce a result: it returns an
error, it panics, or a loop runs past the bound that the model gives it. -/
inductive Failure where
  | error (error : LanguageError)
  | panic (message : String)
  | unfinished
deriving DecidableEq, Repr

abbrev Outcome := Except Failure

/-- An element of a list by its index; an index out of bounds panics. -/
def index {α : Type} (xs : List α) (i : ℕ) : Outcome α :=
  match xs[i]? with
  | some x => .ok x
  | none => .error (.panic "index out of bounds")

theorem index_eq_ok {α : Type} {xs : List α} {i : ℕ} (h : i < xs.length) :
    index xs i = .ok xs[i] := by
  simp [index, h]

section Meets

variable {α β : Type} {x : Outcome α} {P : α → Prop} {Q : β → Prop}

/-- The stage does not panic, its loops end, and a result satisfies `P`. -/
def Meets (x : Outcome α) (P : α → Prop) : Prop :=
  match x with
  | .ok a => P a
  | .error (.error _) => True
  | .error (.panic _) => False
  | .error .unfinished => False

theorem meets_ok {a : α} (h : P a) : Meets (.ok a) P := h

theorem meets_error (error : LanguageError) : Meets (.error (.error error)) P := trivial

theorem Meets.of_ok {a : α} (h : Meets x P) (hx : x = .ok a) : P a := by
  subst hx
  exact h

theorem Meets.bind {f : α → Outcome β} (hx : Meets x P) (hf : ∀ a, P a → Meets (f a) Q) :
    Meets (x >>= f) Q := by
  cases x with
  | ok a => exact hf a hx
  | error failure =>
    cases failure with
    | error => exact trivial
    | panic | unfinished => exact hx.elim

theorem Meets.mono {P' : α → Prop} (hx : Meets x P) (h : ∀ a, P a → P' a) : Meets x P' := by
  cases x with
  | ok a => exact h a hx
  | error failure =>
    cases failure with
    | error => exact trivial
    | panic | unfinished => exact hx.elim

/-- What follows from success may be added to what is met. -/
theorem Meets.and_of_ok {P' : α → Prop} (hx : Meets x P) (h : ∀ a, x = .ok a → P' a) :
    Meets x fun a => P a ∧ P' a := by
  cases x with
  | ok a => exact ⟨hx, h a rfl⟩
  | error failure =>
    cases failure with
    | error => exact trivial
    | panic | unfinished => exact hx.elim

/-- A fold meets an invariant that every step keeps. -/
theorem meets_foldlM {σ : Type} {step : σ → α → Outcome σ} (I : σ → Prop) {xs : List α}
    (hstep : ∀ s, ∀ a ∈ xs, I s → Meets (step s a) I) {s : σ} (hs : I s) :
    Meets (xs.foldlM step s) I := by
  induction xs generalizing s with
  | nil => exact hs
  | cons a xs ih =>
    refine (hstep s a List.mem_cons_self hs).bind fun s' hs' => ?_
    exact ih (fun s b hb => hstep s b (List.mem_cons_of_mem a hb)) hs'

theorem meets_index {xs : List α} {i : ℕ} (h : i < xs.length) :
    Meets (index xs i) fun a => xs[i]? = some a := by
  rw [index_eq_ok h]
  exact List.getElem?_eq_getElem h

end Meets

inductive Expr where
  | countStar
  | parameter (name : String)
  | integer (value : Int64)
  | string (value : String)
  | boolean (value : Bool)
  | null
  | column (name : String)
  | property (input name : String)
deriving DecidableEq, Repr

inductive Axis where
  | valid
  | system
deriving DecidableEq, Repr

inductive Mode where
  | asOf (time : Expr)
  | between (start stop : Expr)
  | changes (start stop : Expr)
deriving DecidableEq, Repr

structure Scope where
  axis : Axis
  mode : Mode
deriving DecidableEq, Repr

abbrev Properties := OrderedMap String Expr

structure NodePattern where
  var : String
  labels : List String
  properties : Properties

inductive RelationshipDirection where
  | outgoing
  | incoming
  | either
deriving DecidableEq, Repr

structure RelationshipPattern where
  var : String
  types : List String
  properties : Properties
  direction : RelationshipDirection

structure Pattern where
  nodes : List NodePattern
  relationships : List RelationshipPattern
  length_nodes : nodes.length = relationships.length + 1

structure Match where
  pattern : Pattern
  scopes : List Scope

inductive OrderDirection where
  | ascending
  | descending
deriving DecidableEq, Repr

structure OrderKey where
  expression : Expr
  direction : OrderDirection

structure Query where
  scopes : List Scope
  matchClauses : List Match
  whereClause : Option (Expr × Expr)
  returns : List Expr
  orderBy : List OrderKey

inductive Write where
  | create (node : NodePattern) (validFrom : Expr)
  | createRelationship (matchClauses : List Match) (pattern : Pattern) (validFrom : Expr)
  | set (matchClauses : List Match) (var : String) (properties : Properties) (validFrom : Expr)
  | delete (matchClauses : List Match) (var : String) (validFrom : Expr)

inductive Boundary where
  | begin
  | commit
  | rollback
deriving DecidableEq, Repr

inductive Statement where
  | query (query : Query)
  | write (write : Write)
  | boundary (boundary : Boundary)
  | submitAnalytics (algorithm : String)
  | procedure (name : String)

structure Program where
  graph : Option String
  statement : Statement

end DtgProxy.Language
