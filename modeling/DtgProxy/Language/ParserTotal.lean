import DtgProxy.Language.LexerTotal
import DtgProxy.Language.Parser

/-! # The parser returns

The cursor stays inside the token list, because the last token is the end token
and no rule of the grammar steps over it.  Every round of a loop that goes on has
moved the cursor, so no loop runs longer than there are tokens.
-/
namespace DtgProxy.Language

open Lib

namespace Parser

variable {α β : Type} {tokens : List Token}

/-- From every state inside the tokens the parser meets its error or comes to a
state inside the tokens that is at least `steps` further. -/
def Moves (tokens : List Token) (steps : α → ℕ) (p : Parser α) : Prop :=
  ∀ s : ParserState, s.cursor < tokens.length →
    Meets (p s) fun r => r.2.cursor < tokens.length ∧ s.cursor + steps r.1 ≤ r.2.cursor

/-- The parser stays inside the tokens and does not go back. -/
abbrev Safe (tokens : List Token) (p : Parser α) : Prop := Moves tokens (fun _ => 0) p

/-- The parser steps over a token. -/
abbrev Consumes (tokens : List Token) (p : Parser α) : Prop := Moves tokens (fun _ => 1) p

section Rules

variable {steps steps' : α → ℕ} {p : Parser α}
variable {f : α → Parser β}

theorem Moves.mono (hp : Moves tokens steps p) (h : ∀ a, steps' a ≤ steps a) :
    Moves tokens steps' p := by
  intro s hs
  refine (hp s hs).mono fun r hr => ⟨hr.1, ?_⟩
  have hle := h r.1
  omega

theorem Moves.safe (hp : Moves tokens steps p) : Safe tokens p := hp.mono fun _ => Nat.zero_le _

theorem moves_pure {a : α} (h : steps a = 0) : Moves tokens steps (pure a) := by
  intro s hs
  exact ⟨hs, by dsimp only; omega⟩

theorem Moves.bind {total : β → ℕ} (hp : Moves tokens steps p)
    (hf : ∀ a, Moves tokens (fun b => total b - steps a) (f a)) :
    Moves tokens total (p >>= f) := by
  intro s hs
  refine (hp s hs).bind fun r hr => ?_
  refine (hf r.1 r.2 hr.1).mono fun r' hr' => ⟨hr'.1, ?_⟩
  have hle : r.2.cursor + (total r'.1 - steps r.1) ≤ r'.2.cursor := hr'.2
  omega

/-- A parser that is safe whatever the number of steps asked of it is zero. -/
theorem Safe.moves (hp : Safe tokens p) (h : ∀ a, steps a = 0) : Moves tokens steps p :=
  hp.mono fun a => (h a).le

theorem Safe.bind (hp : Safe tokens p) (hf : ∀ a, Safe tokens (f a)) :
    Safe tokens (p >>= f) :=
  Moves.bind hp fun a => (hf a).moves fun _ => rfl

theorem Consumes.bind (hp : Consumes tokens p) (hf : ∀ a, Safe tokens (f a)) :
    Consumes tokens (p >>= f) :=
  Moves.bind hp fun a => (hf a).moves fun _ => rfl

/-- A choice that depends on a parsed flag; the steps of the flag count only when
it is set. -/
theorem moves_ite {q : Parser Bool} {p p' : Parser α}
    (hq : Moves tokens (fun flag => if flag then 1 else 0) q)
    (hp : Moves tokens (fun a => steps a - 1) p) (hp' : Moves tokens steps p') :
    Moves tokens steps (do if ← q then p else p') := by
  refine Moves.bind hq fun flag => ?_
  cases flag with
  | true => exact hp
  | false => exact hp'

theorem safe_ite {q : Parser Bool} {p p' : Parser α} (hq : Safe tokens q) (hp : Safe tokens p)
    (hp' : Safe tokens p') : Safe tokens (do if ← q then p else p') := by
  refine Safe.bind hq fun flag => ?_
  cases flag with
  | true => exact hp
  | false => exact hp'

theorem moves_current_bind {f : Token → Parser α}
    (h : ∀ token (s : ParserState), tokens[s.cursor]? = some token → s.cursor < tokens.length →
      Meets (f token s) fun r => r.2.cursor < tokens.length ∧ s.cursor + steps r.1 ≤ r.2.cursor) :
    Moves tokens steps (current tokens >>= f) := by
  intro s hs
  have hcurrent : current tokens s = .ok (tokens[s.cursor], s) := by
    unfold current
    rw [index_eq_ok hs]
    rfl
  change Meets (current tokens s >>= fun r => f r.1 r.2) _
  rw [hcurrent]
  exact h _ s (List.getElem?_eq_getElem hs) hs

theorem safe_current (tokens : List Token) : Safe tokens (current tokens) := by
  intro s hs
  unfold current
  rw [index_eq_ok hs]
  exact ⟨hs, le_rfl⟩

theorem moves_failWith (make : String → ℕ → ℕ → LanguageError) (message : String) :
    Moves tokens steps (failWith tokens make message : Parser α) :=
  moves_current_bind fun _ _ _ _ => meets_error _

theorem moves_fail (message : String) : Moves tokens steps (fail tokens message : Parser α) :=
  moves_failWith _ _

end Rules

/-! ### Primitives -/

/-- Behind a token other than the end token there is another one. -/
theorem succ_lt_length (hend : Terminated tokens) {cursor : ℕ} {token : Token}
    (h : tokens[cursor]? = some token) (hkind : token.kind ≠ .end) :
    cursor + 1 < tokens.length := by
  obtain ⟨front, last, rfl, hlast⟩ := hend
  obtain ⟨hlt, heq⟩ := List.getElem?_eq_some_iff.mp h
  rw [List.length_append, List.length_singleton] at hlt ⊢
  by_contra hle
  have hcursor : cursor = front.length := by omega
  subst hcursor
  rw [List.getElem_concat_length] at heq
  · exact hkind (heq ▸ hlast)
  · rfl

theorem safe_at? (p : TokenKind → Bool) : Safe tokens (at? tokens p) :=
  (safe_current tokens).bind fun _ => moves_pure rfl

variable {p : TokenKind → Bool}

section Grammar

variable (hend : Terminated tokens)

include hend

theorem moves_take (hp : p .end = false) :
    Moves tokens (fun flag => if flag then 1 else 0) (take tokens p) := by
  refine moves_current_bind fun token s htoken hs => ?_
  split_ifs with hkind
  · have hne : token.kind ≠ .end := fun h => by rw [h, hp] at hkind; cases hkind
    exact ⟨succ_lt_length hend htoken hne, le_rfl⟩
  · exact ⟨hs, le_rfl⟩

theorem consumes_expect (hp : p .end = false) (what : String) :
    Consumes tokens (expect tokens p what) :=
  moves_ite (moves_take hend hp) (moves_pure rfl) (moves_fail _)

theorem moves_takeWord (word : String) :
    Moves tokens (fun flag => if flag then 1 else 0) (takeWord tokens word) :=
  moves_take hend rfl

theorem moves_takeSymbol (symbol : Char) :
    Moves tokens (fun flag => if flag then 1 else 0) (takeSymbol tokens symbol) :=
  moves_take hend rfl

theorem consumes_expectWord (word : String) : Consumes tokens (expectWord tokens word) :=
  consumes_expect hend rfl _

theorem consumes_expectSymbol (symbol : Char) : Consumes tokens (expectSymbol tokens symbol) :=
  consumes_expect hend rfl _

theorem consumes_identifier : Consumes tokens (identifier tokens) := by
  refine moves_current_bind fun token s htoken hs => ?_
  cases hkind : token.kind with
  | word => exact ⟨succ_lt_length hend htoken (by rw [hkind]; simp), le_rfl⟩
  | _ => exact (moves_fail _ : Consumes tokens (fail tokens _)) s hs

omit hend in
theorem safe_rejectRemovedSyntax : Safe tokens (rejectRemovedSyntax tokens) :=
  safe_ite (safe_at? _) (moves_failWith _ _) (moves_pure rfl)

/-! ### Loops -/

/-- A round that goes on has to move the cursor. -/
def roundSteps {σ ρ : Type} : σ ⊕ ρ → ℕ
  | .inl _ => 1
  | .inr _ => 0

omit hend in
theorem roundSteps_sub_one {σ ρ : Type} (round : σ ⊕ ρ) : roundSteps round - 1 = 0 := by
  cases round <;> rfl

omit hend in
theorem roundSteps_le_one {σ ρ : Type} (round : σ ⊕ ρ) : roundSteps round ≤ 1 := by
  cases round <;> simp [roundSteps]

omit hend in
theorem safe_repeatFrom {σ ρ : Type} {body : σ → Parser (σ ⊕ ρ)}
    (hbody : ∀ state, Moves tokens roundSteps (body state)) (fuel : ℕ) (state : σ)
    (s : ParserState) (hs : s.cursor < tokens.length) (hfuel : tokens.length < s.cursor + fuel) :
    Meets (repeatFrom body fuel state s)
      fun r => r.2.cursor < tokens.length ∧ s.cursor + 0 ≤ r.2.cursor := by
  induction fuel generalizing state s with
  | zero => omega
  | succ fuel ih =>
    refine (hbody state s hs).bind fun r hr => ?_
    match r, hr with
    | (.inl state, s'), ⟨hlt, hle⟩ =>
      have hstep : s.cursor + 1 ≤ s'.cursor := hle
      refine (ih state s' hlt (by omega)).mono fun r' hr' => ⟨hr'.1, ?_⟩
      omega
    | (.inr result, s'), ⟨hlt, hle⟩ => exact ⟨hlt, hle⟩

omit hend in
theorem safe_loop {σ ρ : Type} {body : σ → Parser (σ ⊕ ρ)}
    (hbody : ∀ state, Moves tokens roundSteps (body state)) (state : σ) :
    Safe tokens (loop tokens body state) := fun s hs =>
  safe_repeatFrom hbody _ state s hs (by omega)

/-! ### Expressions -/

theorem consumes_primary : Consumes tokens (primary tokens) := by
  refine moves_current_bind fun token s htoken hs => ?_
  have hadvance : ∀ {p : Parser Expr}, token.kind ≠ .end → Safe tokens p →
      Meets ((advance >>= fun _ => p) s)
        fun r => r.2.cursor < tokens.length ∧ s.cursor + 1 ≤ r.2.cursor :=
    fun hne hp => hp { s with cursor := s.cursor + 1 } (succ_lt_length hend htoken hne)
  cases hkind : token.kind with
  | word value =>
    change Meets ((if eqIgnoreAsciiCase value "count" && atCountStar tokens s.cursor then
      countStar tokens else advance >>= fun _ => pure (wordExpr value) : Parser Expr) s) _
    split_ifs
    · exact hadvance (by simp [hkind]) ((consumes_expectSymbol hend _).safe.bind fun _ =>
        (consumes_expectSymbol hend _).safe.bind fun _ =>
          (consumes_expectSymbol hend _).safe.bind fun _ => moves_pure rfl)
    · exact hadvance (by simp [hkind]) (moves_pure rfl)
  | parameter | integer | string => exact hadvance (by simp [hkind]) (moves_pure rfl)
  | _ => exact (moves_fail _ : Consumes tokens (fail tokens _)) s hs

theorem consumes_expr : Consumes tokens (expr tokens) := by
  refine (consumes_primary hend).bind fun first => ?_
  refine safe_ite (moves_takeSymbol hend _).safe ?_ (moves_pure rfl)
  refine (consumes_identifier hend).safe.bind fun name => ?_
  cases first with
  | column => exact moves_pure rfl
  | _ => exact moves_fail _

/-! ### Patterns -/

theorem safe_propertyMap : Safe tokens (propertyMap tokens) := by
  refine Safe.bind (safe_loop (fun ⟨map, depth⟩ => ?_) _) fun map =>
    (consumes_expectSymbol hend _).safe.bind fun _ => moves_pure rfl
  refine Moves.bind (safe_at? _) fun flag => ?_
  cases flag with
  | true => exact moves_pure rfl
  | false =>
    simp only [Bool.false_eq_true, if_false]
    split_ifs
    · exact moves_failWith _ _
    · refine ((consumes_identifier hend).bind fun key => ?_).mono roundSteps_le_one
      refine (consumes_expectSymbol hend _).safe.bind fun _ => ?_
      refine (consumes_expr hend).safe.bind fun value => ?_
      exact safe_ite (moves_takeSymbol hend _).safe (moves_pure rfl) (moves_pure rfl)

theorem safe_optionalProperties : Safe tokens (optionalProperties tokens) :=
  safe_ite (moves_takeSymbol hend _).safe (safe_propertyMap hend) (moves_pure rfl)

theorem safe_colonNames : Safe tokens (colonNames tokens) := by
  refine safe_loop (fun names => ?_) []
  refine moves_ite (moves_takeSymbol hend _) ?_ (moves_pure rfl)
  exact ((consumes_identifier hend).safe.bind fun _ => moves_pure rfl).moves roundSteps_sub_one

theorem safe_elementVariable (close : Char) {anonymous : Parser String}
    (hanonymous : Safe tokens anonymous) :
    Safe tokens (elementVariable tokens close anonymous) :=
  safe_ite (safe_at? _) hanonymous (consumes_identifier hend).safe

omit hend in
theorem safe_anonymousNode : Safe tokens anonymousNode := fun _ hs => ⟨hs, le_rfl⟩

omit hend in
theorem safe_anonymousRelationship : Safe tokens anonymousRelationship := fun _ hs => ⟨hs, le_rfl⟩

theorem consumes_nodePattern : Consumes tokens (nodePattern tokens) := by
  refine (consumes_expectSymbol hend _).bind fun _ => ?_
  refine (safe_elementVariable hend _ safe_anonymousNode).bind fun var => ?_
  refine (safe_colonNames hend).bind fun labels => ?_
  refine (safe_optionalProperties hend).bind fun properties => ?_
  exact (consumes_expectSymbol hend _).safe.bind fun _ => moves_pure rfl

theorem safe_relationshipPattern : Safe tokens (relationshipPattern tokens) := by
  refine (safe_elementVariable hend _ safe_anonymousRelationship).bind fun var => ?_
  refine (safe_colonNames hend).bind fun types => ?_
  exact (safe_optionalProperties hend).bind fun properties => moves_pure rfl

theorem safe_closeDirection (incoming : Bool) : Safe tokens (closeDirection tokens incoming) := by
  cases incoming with
  | true => exact (consumes_expectSymbol hend _).safe.bind fun _ => moves_pure rfl
  | false =>
    refine safe_ite (moves_take hend rfl).safe (moves_pure rfl) ?_
    exact safe_ite (moves_takeSymbol hend _).safe (moves_pure rfl) (moves_fail _)

theorem safe_openRelationship : Safe tokens (openRelationship tokens) :=
  safe_ite (moves_take hend rfl).safe (moves_pure rfl)
    ((consumes_expectSymbol hend _).safe.bind fun _ => moves_pure rfl)

theorem safe_pattern : Safe tokens (pattern tokens) := by
  refine (consumes_nodePattern hend).safe.bind fun first => ?_
  refine safe_loop (fun pattern => ?_) _
  refine Moves.bind (safe_at? _) fun flag => ?_
  cases flag with
  | false => exact moves_pure rfl
  | true =>
    refine Moves.bind (safe_openRelationship hend) fun incoming => ?_
    refine Moves.bind (consumes_expectSymbol hend _) fun _ => ?_
    refine Safe.moves ?_ roundSteps_sub_one
    refine (safe_relationshipPattern hend).bind fun relationship => ?_
    refine (consumes_expectSymbol hend _).safe.bind fun _ => ?_
    refine (safe_closeDirection hend _).bind fun direction => ?_
    exact (consumes_nodePattern hend).safe.bind fun node => moves_pure rfl

/-! ### Scopes -/

theorem consumes_axis : Consumes tokens (axis tokens) :=
  moves_ite (moves_takeWord hend _) (moves_pure rfl)
    (moves_ite (moves_takeWord hend _) (moves_pure rfl) (moves_fail _))

theorem safe_bounds : Safe tokens (bounds tokens) := by
  refine (consumes_expectWord hend _).safe.bind fun _ => ?_
  refine (consumes_expr hend).safe.bind fun start => ?_
  refine (consumes_expectWord hend _).safe.bind fun _ => ?_
  exact (consumes_expr hend).safe.bind fun stop => moves_pure rfl

theorem consumes_scope : Consumes tokens (scope tokens) := by
  refine moves_ite (moves_takeWord hend _) ?_ ?_
  · refine (consumes_expectWord hend _).safe.bind fun _ => ?_
    refine (consumes_axis hend).safe.bind fun axis => ?_
    exact (safe_bounds hend).bind fun _ => moves_pure rfl
  · refine (consumes_expectWord hend _).bind fun _ => ?_
    refine (consumes_axis hend).safe.bind fun axis => ?_
    refine safe_ite (moves_takeWord hend _).safe ?_ ?_
    · refine (consumes_expectWord hend _).safe.bind fun _ => ?_
      exact (consumes_expr hend).safe.bind fun time => moves_pure rfl
    · refine (safe_bounds hend).bind fun ends => ?_
      split_ifs
      · exact moves_fail _
      · exact moves_pure rfl

theorem safe_scopesWhile (starts : TokenKind → Bool) : Safe tokens (scopesWhile tokens starts) := by
  refine safe_loop (fun scopes => ?_) []
  refine Moves.bind (safe_at? _) fun flag => ?_
  cases flag with
  | false => exact moves_pure rfl
  | true => exact ((consumes_scope hend).bind fun _ => moves_pure rfl).mono roundSteps_le_one

theorem safe_validFrom : Safe tokens (validFrom tokens) := by
  refine (consumes_expectWord hend _).safe.bind fun _ => ?_
  refine safe_ite (moves_takeWord hend _).safe (moves_failWith _ _) ?_
  exact (consumes_expectWord hend _).safe.bind fun _ => (consumes_expr hend).safe

/-! ### Statements -/

theorem safe_matchClauses : Safe tokens (matchClauses tokens) := by
  refine Safe.bind (safe_loop (fun clauses => ?_) _) fun clauses => ?_
  · refine moves_ite (moves_takeWord hend _) ?_ (moves_pure rfl)
    refine Safe.moves ?_ roundSteps_sub_one
    refine (safe_pattern hend).bind fun pattern => ?_
    exact (safe_scopesWhile hend _).bind fun scopes => moves_pure rfl
  · split_ifs
    · exact moves_fail _
    · exact moves_pure rfl

theorem safe_whereClause : Safe tokens (whereClause tokens) := by
  refine safe_ite (moves_takeWord hend _).safe ?_ (moves_pure rfl)
  refine (consumes_expr hend).safe.bind fun left => ?_
  refine (consumes_expectSymbol hend _).safe.bind fun _ => ?_
  exact (consumes_expr hend).safe.bind fun right => moves_pure rfl

theorem safe_commaSeparated {element : Parser α} (helement : Safe tokens element) :
    Safe tokens (commaSeparated tokens element) := by
  refine safe_loop (fun elements => ?_) []
  refine Moves.bind helement fun next => ?_
  exact moves_ite (moves_takeSymbol hend _) (moves_pure rfl) (moves_pure rfl)

theorem safe_orderKey : Safe tokens (orderKey tokens) := by
  refine (consumes_expr hend).safe.bind fun expression => ?_
  refine safe_ite (moves_takeWord hend _).safe (moves_pure rfl) ?_
  exact (moves_takeWord hend _).safe.bind fun _ => moves_pure rfl

theorem safe_orderBy : Safe tokens (orderBy tokens) := by
  refine safe_ite (moves_takeWord hend _).safe ?_ (moves_pure rfl)
  exact (consumes_expectWord hend _).safe.bind fun _ => safe_commaSeparated hend (safe_orderKey hend)

theorem safe_queryTail (scopes : List Scope) (clauses : List Match) :
    Safe tokens (queryTail tokens scopes clauses) := by
  refine (safe_whereClause hend).bind fun condition => ?_
  refine safe_rejectRemovedSyntax.bind fun _ => ?_
  refine (consumes_expectWord hend _).safe.bind fun _ => ?_
  refine (safe_commaSeparated hend (consumes_expr hend).safe).bind fun returns => ?_
  exact (safe_orderBy hend).bind fun keys => moves_pure rfl

theorem safe_query : Safe tokens (query tokens) := by
  refine (safe_scopesWhile hend _).bind fun scopes => ?_
  exact (safe_matchClauses hend).bind fun clauses => safe_queryTail hend scopes clauses

theorem safe_createWrite (clauses : List Match) : Safe tokens (createWrite tokens clauses) := by
  refine (consumes_expectWord hend _).safe.bind fun _ => ?_
  refine (safe_pattern hend).bind fun pattern => ?_
  refine (safe_validFrom hend).bind fun time => ?_
  split
  · exact moves_pure rfl
  · exact moves_pure rfl

theorem safe_assignmentTarget : Safe tokens (assignmentTarget tokens) := by
  refine (consumes_identifier hend).safe.bind fun var => ?_
  refine (consumes_expectSymbol hend _).safe.bind fun _ => ?_
  refine (consumes_identifier hend).safe.bind fun property => ?_
  exact (consumes_expectSymbol hend _).safe.bind fun _ => moves_pure rfl

theorem safe_setProperties : Safe tokens (setProperties tokens) := by
  refine (safe_assignmentTarget hend).bind fun target => ?_
  refine (consumes_expr hend).safe.bind fun value => ?_
  refine Safe.bind (safe_loop (fun properties => ?_) _) fun properties => moves_pure rfl
  refine moves_ite (moves_takeSymbol hend _) ?_ (moves_pure rfl)
  refine Safe.moves ?_ roundSteps_sub_one
  refine (safe_assignmentTarget hend).bind fun next => ?_
  dsimp only
  split_ifs
  · exact moves_fail _
  · exact (consumes_expr hend).safe.bind fun value => moves_pure rfl

theorem safe_writeAfterMatches (clauses : List Match) :
    Safe tokens (writeAfterMatches tokens clauses) := by
  refine safe_ite (moves_takeWord hend _).safe ?_ ?_
  · refine (safe_setProperties hend).bind fun assigned => ?_
    exact (safe_validFrom hend).bind fun time => moves_pure rfl
  · refine (consumes_expectWord hend _).safe.bind fun _ => ?_
    refine (consumes_identifier hend).safe.bind fun var => ?_
    exact (safe_validFrom hend).bind fun time => moves_pure rfl

theorem safe_matchLeadingStatement : Safe tokens (matchLeadingStatement tokens) := by
  refine (safe_matchClauses hend).bind fun clauses => ?_
  refine safe_ite (safe_at? _) (safe_writeAfterMatches hend clauses) ?_
  refine safe_ite (safe_at? _) (safe_createWrite hend clauses) ?_
  exact (safe_queryTail hend [] clauses).bind fun query => moves_pure rfl

theorem safe_submit : Safe tokens (submit tokens) := by
  refine (consumes_expectWord hend _).safe.bind fun _ => ?_
  refine (consumes_identifier hend).safe.bind fun algorithm => ?_
  exact (consumes_expectWord hend _).safe.bind fun _ => moves_pure rfl

theorem safe_procedureHead : Safe tokens (procedureHead tokens) := by
  refine moves_current_bind fun token s htoken hs => ?_
  have hidentifier := (consumes_identifier hend).safe s hs
  cases hkind : token.kind with
  | parameter =>
    exact ⟨succ_lt_length hend htoken (by simp [hkind]), Nat.le_succ _⟩
  | _ => exact hidentifier

omit hend in
theorem at?_eq (p : TokenKind → Bool) (s : ParserState) (hs : s.cursor < tokens.length) :
    at? tokens p s = .ok (p tokens[s.cursor].kind, s) := by
  change (current tokens s >>= fun r => .ok (p r.1.kind, r.2)) = _
  unfold current
  rw [index_eq_ok hs]
  rfl

/-- The loop over the arguments stops at the end token. -/
theorem safe_skipArguments : Safe tokens (skipArguments tokens) := by
  refine safe_loop (fun _ => ?_) ()
  refine moves_ite (moves_takeSymbol hend _) (moves_pure rfl) ?_
  intro s hs
  change Meets (at? tokens (· == .end) s >>= fun r =>
    (if r.1 then fail tokens "unterminated procedure call"
      else advance >>= fun _ => pure (.inl ()) : Parser (Unit ⊕ Unit)) r.2) _
  rw [at?_eq _ s hs]
  by_cases hlast : tokens[s.cursor].kind = .end
  · refine Meets.bind (P := fun r => r = (true, s)) (by simp [hlast, Meets]) fun r hr => ?_
    rw [hr]
    exact (moves_fail _ : Moves tokens roundSteps (fail tokens _)) s hs
  · refine Meets.bind (P := fun r => r = (false, s)) (by simp [hlast, Meets]) fun r hr => ?_
    rw [hr]
    exact ⟨succ_lt_length hend (List.getElem?_eq_getElem hs) hlast, le_rfl⟩

theorem safe_procedureName : Safe tokens (procedureName tokens) := by
  refine (safe_procedureHead hend).bind fun head => ?_
  refine Safe.bind (safe_loop (fun name => ?_) _) fun name => ?_
  · refine moves_ite (moves_takeSymbol hend _) ?_ (moves_pure rfl)
    exact ((consumes_identifier hend).safe.bind fun _ => moves_pure rfl).moves roundSteps_sub_one
  · exact (safe_ite (moves_takeSymbol hend _).safe (safe_skipArguments hend)
      (moves_pure rfl)).bind fun _ => moves_pure rfl

theorem safe_statement : Safe tokens (statement tokens) := by
  refine safe_ite (moves_takeWord hend _).safe (moves_pure rfl) ?_
  refine safe_ite (moves_takeWord hend _).safe (moves_pure rfl) ?_
  refine safe_ite (moves_takeWord hend _).safe (moves_pure rfl) ?_
  refine safe_ite (moves_takeWord hend _).safe
    ((safe_procedureName hend).bind fun _ => moves_pure rfl) ?_
  refine safe_ite (moves_takeWord hend _).safe (safe_submit hend) ?_
  refine safe_ite (safe_at? _) (safe_createWrite hend []) ?_
  refine safe_ite (safe_at? _) (safe_matchLeadingStatement hend) ?_
  exact (safe_query hend).bind fun _ => moves_pure rfl

theorem safe_useGraph : Safe tokens (useGraph tokens) :=
  safe_ite (moves_takeWord hend _).safe
    ((consumes_identifier hend).safe.bind fun _ => moves_pure rfl) (moves_pure rfl)

theorem safe_program : Safe tokens (program tokens) := by
  refine safe_rejectRemovedSyntax.bind fun _ => ?_
  refine (safe_useGraph hend).bind fun graph => ?_
  refine safe_rejectRemovedSyntax.bind fun _ => ?_
  refine (safe_statement hend).bind fun statement => ?_
  refine safe_ite (safe_at? _) (moves_pure rfl) ?_
  exact safe_rejectRemovedSyntax.bind fun _ => moves_fail _

end Grammar

end Parser

/-- The parser returns for every token list that ends with the end token. -/
theorem meets_parse {tokens : List Token} (hend : Terminated tokens) :
    Meets (parse tokens) fun _ => True := by
  have hlength : 0 < tokens.length := by
    obtain ⟨front, last, rfl, -⟩ := hend
    simp
  refine (Parser.safe_program hend ⟨0, 0, 0⟩ hlength).bind fun _ _ => trivial

end DtgProxy.Language
