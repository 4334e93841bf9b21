import DtgProxy.Language.Compile
import DtgProxy.Language.ParserTotal
import DtgProxy.Language.Results

/-! # When the compiler returns

The lexer, the parser and the analysis return for every input.  Normalization
relies on the analysis for everything but one thing: the analysis does not look
at the expressions of temporal scopes, and a `COUNT(*)` there as a system time
is a panic.
-/
namespace DtgProxy.Language

open Lib

theorem meets_true_iff {α : Type} {x : Outcome α} :
    Meets x (fun _ => True) ↔ (∃ a, x = .ok a) ∨ ∃ error, x = .error (.error error) := by
  cases x with
  | ok a => exact ⟨fun _ => .inl ⟨a, rfl⟩, fun _ => trivial⟩
  | error failure =>
    cases failure with
    | error error => exact ⟨fun _ => .inr ⟨error, rfl⟩, fun _ => trivial⟩
    | panic | unfinished => simp [Meets]

/-- A continuation that always returns does not matter. -/
theorem meets_bind_iff {α β : Type} {x : Outcome α} {f : α → Outcome β}
    (hf : ∀ a, x = .ok a → Meets (f a) fun _ => True) :
    Meets (x >>= f) (fun _ => True) ↔ Meets x (fun _ => True) := by
  cases x with
  | ok a => exact ⟨fun _ => trivial, fun _ => hf a rfl⟩
  | error failure => cases failure <;> exact Iff.rfl

/-- A stage fails badly when its first part returns and the second fails badly. -/
theorem meets_bind_iff_not {α β : Type} {x : Outcome α} {f : α → Outcome β} {P bad : α → Prop}
    (hx : Meets x P) (hf : ∀ a, x = .ok a → (Meets (f a) (fun _ => True) ↔ ¬ bad a)) :
    Meets (x >>= f) (fun _ => True) ↔ ¬ ∃ a, x = .ok a ∧ bad a := by
  cases x with
  | ok a =>
    refine (hf a rfl).trans (not_congr ⟨fun h => ⟨a, rfl, h⟩, ?_⟩)
    rintro ⟨other, heq, h⟩
    cases heq
    exact h
  | error failure =>
    cases failure with
    | error => exact ⟨fun _ h => by simp at h, fun _ => trivial⟩
    | panic | unfinished => exact hx.elim

/-! ### Temporal scopes -/

/-- The system time of a scope is a `COUNT(*)` that normalization comes to. -/
def CountsRows (scope : EffectiveReadScope) : Prop :=
  match scope.system with
  | some ⟨_, .asOf time⟩ => time = .countStar
  | some ⟨_, .changes start stop⟩ =>
    start = .countStar ∨ (timeExpr start).isOk = true ∧ stop = .countStar
  | _ => False

theorem meets_timeExpr_iff (expression : Expr) :
    Meets (timeExpr expression) (fun _ => True) ↔ expression ≠ .countStar := by
  refine ⟨?_, fun h => ?_⟩
  · rintro hmeets rfl
    exact hmeets
  · cases expression with
    | countStar => exact absurd rfl h
    | parameter => exact meets_ok trivial
    | integer =>
      unfold timeExpr
      dsimp only
      split
      · exact meets_ok trivial
      · exact meets_reject _ _
    | _ => exact meets_reject _ _

theorem meets_validExpr (expression : Expr) : Meets (validExpr expression) fun _ => True := by
  cases expression with
  | parameter | integer => exact meets_ok trivial
  | _ => exact meets_reject _ _

theorem meets_validInterval (start stop : Expr) :
    Meets (validInterval start stop) fun _ => True := by
  unfold validInterval
  split
  · split_ifs
    · exact meets_ok trivial
    · exact meets_reject _ _
  · refine (meets_validExpr _).bind fun _ _ => ?_
    exact (meets_validExpr _).bind fun _ _ => meets_ok trivial

theorem meets_validScope (valid : Option Scope) : Meets (validScope valid) fun _ => True := by
  unfold validScope
  split
  · exact meets_ok trivial
  · exact (meets_validExpr _).bind fun _ _ => meets_ok trivial
  · exact (meets_validInterval _ _).bind fun _ _ => meets_ok trivial
  · refine (meets_validExpr _).bind fun _ _ => ?_
    exact (meets_validExpr _).bind fun _ _ => meets_ok trivial

theorem meets_transactionScope_iff (scope : EffectiveReadScope) :
    Meets (transactionScope scope.system) (fun _ => True) ↔ ¬ CountsRows scope := by
  unfold CountsRows
  cases scope.system with
  | none => simp [transactionScope, Meets]
  | some system =>
    obtain ⟨axis, mode⟩ := system
    cases mode with
    | asOf =>
      simp only [transactionScope]
      rw [meets_bind_iff fun _ _ => meets_ok trivial, meets_timeExpr_iff]
    | between => simpa [transactionScope] using meets_reject _ _
    | changes start stop =>
      simp only [transactionScope]
      cases hstart : timeExpr start with
      | ok time =>
        have hne : start ≠ .countStar := (meets_timeExpr_iff start).mp (by rw [hstart]; trivial)
        change Meets (timeExpr stop >>= fun stop => .ok (TemporalScope.changes time stop)) _ ↔ _
        rw [meets_bind_iff fun _ _ => meets_ok trivial, meets_timeExpr_iff]
        simp [hne, Except.isOk, Except.toBool]
      | error failure =>
        have hmeets := meets_timeExpr_iff start
        rw [hstart] at hmeets
        refine Iff.trans ?_ (hmeets.trans (by simp [Except.isOk, Except.toBool]))
        cases failure <;> exact Iff.rfl

theorem meets_readScope_iff (scope : EffectiveReadScope) :
    Meets (readScope scope) (fun _ => True) ↔ ¬ CountsRows scope := by
  unfold readScope
  rw [meets_bind_iff fun _ _ => (meets_validScope _).bind fun _ _ => meets_ok trivial,
    meets_transactionScope_iff]

/-- The scope of a clause panics, if at all, at its system time. -/
theorem meets_clauseScope_iff (scopes : List Scope) (clause : Match) :
    Meets (clauseScope scopes clause) (fun _ => True) ↔
      ¬ ∃ scope, effectiveScope scopes clause.scopes = .ok scope ∧ CountsRows scope :=
  meets_bind_iff_not (meets_effectiveScope scopes clause.scopes) fun scope _ =>
    meets_readScope_iff scope

/-! ### Selections -/

/-- A clause has a `COUNT(*)` as its system time, and none before it fails. -/
def TimesByCount (scopes : List Scope) (clauses : List Match) : Prop :=
  ∃ before clause after scope, clauses = before ++ clause :: after ∧
    (∀ earlier ∈ before, (clauseScope scopes earlier).isOk = true) ∧
    effectiveScope scopes clause.scopes = .ok scope ∧ CountsRows scope

section Selections

variable {scopes : List Scope} {clauses : List Match} {lookup : Option Expr}
  {selection : Selection}

/-- A clause whose scope can be read has a plan. -/
theorem exists_normalizeMatch (hlookup : LookupConstant lookup) (hsane : selection.Sane)
    {clause : Match} (hcountless : clause.pattern.Countless) {readScope : ReadScope}
    (hscope : clauseScope scopes clause = .ok readScope) :
    ∃ next, normalizeMatch scopes lookup selection clause = .ok next ∧ next.Sane := by
  obtain ⟨added, root, edges, hexpand, -⟩ :=
    exists_expandMatch hlookup readScope hsane hcountless
  have hmatch : normalizeMatch scopes lookup selection clause =
      expandMatch lookup readScope selection clause.pattern := by
    unfold normalizeMatch
    rw [hscope]
    rfl
  exact ⟨_, hmatch.trans hexpand, fun hnone => by cases hnone⟩

theorem normalizeMatch_of_scope_error {clause : Match} {failure : Failure}
    (hscope : clauseScope scopes clause = .error failure) :
    normalizeMatch scopes lookup selection clause = .error failure := by
  unfold normalizeMatch
  rw [hscope]
  rfl

/-- The clauses have a plan, or fail as the scope of the first clause does whose
scope cannot be read. -/
theorem foldlM_normalizeMatch (hlookup : LookupConstant lookup)
    (hcountless : ∀ clause ∈ clauses, clause.pattern.Countless) :
    (∃ selection, clauses.foldlM (normalizeMatch scopes lookup) Selection.empty = .ok selection ∧
      selection.Sane ∧ ∀ clause ∈ clauses, (clauseScope scopes clause).isOk = true) ∨
    ∃ before clause after failure, clauses = before ++ clause :: after ∧
      (∀ earlier ∈ before, (clauseScope scopes earlier).isOk = true) ∧
      clauseScope scopes clause = .error failure ∧
      clauses.foldlM (normalizeMatch scopes lookup) Selection.empty = .error failure :=
  Result.foldlM_gated Selection.Sane
    (fun _ hsane clause hclause _ hscope =>
      exists_normalizeMatch hlookup hsane (hcountless clause hclause) hscope)
    (fun _ _ _ _ _ hscope => normalizeMatch_of_scope_error hscope)
    (fun _ => rfl)

theorem isOk_iff {α : Type} {x : Outcome α} : x.isOk = true ↔ ∃ a, x = .ok a := by
  cases x <;> simp [Except.isOk, Except.toBool]

/-- The plan of the clauses panics exactly at a `COUNT(*)` as a system time. -/
theorem meets_foldlM_normalizeMatch_iff (hlookup : LookupConstant lookup)
    (hcountless : ∀ clause ∈ clauses, clause.pattern.Countless) :
    Meets (clauses.foldlM (normalizeMatch scopes lookup) Selection.empty) (fun _ => True) ↔
      ¬ TimesByCount scopes clauses := by
  constructor
  · rintro hmeets ⟨before, clause, after, scope, rfl, hbefore, heffective, hcounts⟩
    rcases @foldlM_normalizeMatch scopes before lookup hlookup fun c hc =>
      hcountless c (List.mem_append_left _ hc) with
      ⟨selection, hfold, -, -⟩ | ⟨front, earlier, rest, failure, rfl, -, hfailure, -⟩
    · rw [List.foldlM_append, hfold] at hmeets
      have hclause : ¬ Meets (clauseScope scopes clause) fun _ => True := fun h =>
        (meets_clauseScope_iff scopes clause).mp h ⟨scope, heffective, hcounts⟩
      cases hscope : clauseScope scopes clause with
      | ok => exact hclause (by rw [hscope]; trivial)
      | error failure =>
        refine hclause ?_
        change Meets ((clause :: after).foldlM (normalizeMatch scopes lookup) selection) _ at hmeets
        rw [List.foldlM_cons, normalizeMatch_of_scope_error hscope] at hmeets
        rw [hscope]
        cases failure <;> exact hmeets
    · obtain ⟨readScope, hok⟩ := isOk_iff.mp (hbefore earlier (by simp))
      rw [hok] at hfailure
      cases hfailure
  · intro hnone
    rcases @foldlM_normalizeMatch scopes clauses lookup hlookup hcountless with
      ⟨selection, hfold, -, -⟩ | ⟨before, clause, after, failure, hsplit, hbefore, hfailure, hfold⟩
    · rw [hfold]
      trivial
    · have hmeets : Meets (clauseScope scopes clause) fun _ => True := by
        refine (meets_clauseScope_iff scopes clause).mpr ?_
        rintro ⟨scope, heffective, hcounts⟩
        exact hnone ⟨before, clause, after, scope, hsplit, hbefore, heffective, hcounts⟩
      rw [hfailure] at hmeets
      rw [hfold]
      cases failure <;> exact hmeets

theorem meets_normalizeSelection_iff {condition : Option (Expr × Expr)}
    (hcountless : ∀ clause ∈ clauses, clause.pattern.Countless)
    (hcount : ∀ pair, condition = some pair → pair.1 ≠ .countStar ∧ pair.2 ≠ .countStar) :
    Meets (normalizeSelection scopes clauses condition) (fun _ => True) ↔
      ¬ TimesByCount scopes clauses := by
  unfold normalizeSelection
  rw [meets_bind_iff, meets_foldlM_normalizeMatch_iff (exactVertexLookup_constant _ _) hcountless]
  intro selection _
  cases selection.root with
  | none => exact meets_reject _ _
  | some root =>
    obtain ⟨after, -, hwhere, -⟩ := @exists_normalizeWhere [] (exactVertexLookup clauses condition)
      condition hcount ⟨selection.nodes, root⟩
    change Meets (normalizeWhere _ _ _) _
    rw [hwhere]
    trivial

end Selections

/-! ### Statements -/

/-- A query panics exactly at a `COUNT(*)` as a system time. -/
theorem meets_normalizeQuery_iff {query : Query} {bindings : Bindings}
    (haccepted : QueryAccepted query bindings) :
    Meets (normalizeQuery query) (fun _ => True) ↔
      ¬ (query.CountsAlone ∧ TimesByCount query.scopes query.matchClauses) := by
  unfold normalizeQuery
  by_cases halone : query.CountsAlone
  · obtain ⟨projections, schema, hcolumns, -⟩ := exists_resultColumns halone
    rw [hcolumns]
    change Meets (normalizeSelection _ _ _ >>= _) _ ↔ _
    rw [meets_bind_iff, meets_normalizeSelection_iff haccepted.clauses.countless
      fun pair hpair => ⟨(haccepted.condition pair hpair).1.1, (haccepted.condition pair hpair).2.1⟩]
    · simp [halone]
    · intro draft _
      obtain ⟨after, -, horder, -⟩ := @exists_normalizeOrder [] query.orderBy
        (fun key hkey => (haccepted.order key hkey).1) draft
      rw [horder]
      trivial
  · obtain ⟨error, herror⟩ := resultColumns_of_not_alone halone
    rw [herror]
    exact ⟨fun _ h => halone h.1, fun _ => trivial⟩

theorem meets_logicalProperties {properties : Properties} (hcountless : Countless properties) :
    Meets (logicalProperties properties) fun _ => True := by
  refine meets_foldlM (fun _ => True) (fun logical entry hentry _ => ?_) trivial
  obtain ⟨value, hvalue, -⟩ := exists_logicalExpr (hcountless entry hentry)
  rw [hvalue]
  trivial

variable {clauses : List Match}

/-- The clauses of a write have no system time. -/
theorem not_timesByCount_of_selection (haccepted : SelectionAccepted clauses) :
    ¬ TimesByCount [] clauses := by
  rintro ⟨before, clause, after, scope, rfl, -, heffective, hcounts⟩
  have hsystem := (meets_effectiveScope [] clause.scopes).of_ok heffective
  have hnone : lastScope .system ([] ++ clause.scopes) = none := by
    rw [lastScope, List.find?_eq_none]
    intro scope hscope
    simpa using haccepted.2 clause (by simp) scope (by simpa using hscope)
  rw [hnone] at hsystem
  rw [CountsRows, hsystem] at hcounts
  exact hcounts

theorem meets_normalizeSelection_write (haccepted : SelectionAccepted clauses) :
    Meets (normalizeSelection [] clauses none) fun _ => True := by
  obtain ⟨bindings, hclauses⟩ := haccepted.1
  exact (meets_normalizeSelection_iff hclauses.countless (by simp)).mpr
    (not_timesByCount_of_selection haccepted)

/-- A write never panics. -/
theorem meets_normalizeWrite {write : Write} (haccepted : WriteAccepted write) :
    Meets (normalizeWrite write) fun _ => True := by
  cases write with
  | create =>
    refine (meets_logicalProperties haccepted).bind fun _ _ => ?_
    exact (meets_validExpr _).bind fun _ _ => meets_ok trivial
  | createRelationship clauses pattern =>
    obtain ⟨hselection, relationship, hpattern⟩ := haccepted
    have hlength := pattern.length_nodes
    have hone : pattern.relationships.length = 1 := by rw [hpattern.only]; rfl
    refine (meets_index (by omega : 0 < pattern.relationships.length)).bind
      fun found hfound => ?_
    obtain rfl : relationship = found := by simpa [hpattern.only] using hfound
    refine (meets_index (by omega : 0 < pattern.nodes.length)).bind fun left _ => ?_
    refine (meets_index (by omega : 1 < pattern.nodes.length)).bind fun right _ => ?_
    have hends : Meets (createdEnds relationship.direction left.var right.var) fun _ => True := by
      cases hdirection : relationship.direction with
      | outgoing | incoming => exact meets_ok trivial
      | either => exact absurd hdirection hpattern.direction
    refine hends.bind fun ends _ => ?_
    refine (meets_normalizeSelection_write hselection).bind fun _ _ => ?_
    refine (meets_index (by rw [hpattern.types]; exact Nat.one_pos)).bind fun _ _ => ?_
    refine (meets_logicalProperties hpattern.countless).bind fun _ _ => ?_
    exact (meets_validExpr _).bind fun _ _ => meets_ok trivial
  | set =>
    refine (meets_normalizeSelection_write haccepted.1).bind fun _ _ => ?_
    refine (meets_logicalProperties haccepted.2).bind fun _ _ => ?_
    exact (meets_validExpr _).bind fun _ _ => meets_ok trivial
  | delete =>
    refine (meets_normalizeSelection_write haccepted).bind fun _ _ => ?_
    exact (meets_validExpr _).bind fun _ _ => meets_ok trivial

/-- The statement is a query that panics. -/
def PanicsAtCount : Statement → Prop
  | .query query => query.CountsAlone ∧ TimesByCount query.scopes query.matchClauses
  | _ => False

theorem meets_normalizeStatement_iff {statement : Statement}
    (haccepted : StatementAccepted statement) :
    Meets (normalizeStatement statement) (fun _ => True) ↔ ¬ PanicsAtCount statement := by
  cases statement with
  | query query =>
    obtain ⟨bindings, hquery⟩ := haccepted
    change Meets (normalizeQuery query >>= _) _ ↔ _
    rw [meets_bind_iff (fun _ _ => meets_ok trivial), meets_normalizeQuery_iff hquery]
    rfl
  | write =>
    refine ⟨fun _ h => h, fun _ => ?_⟩
    exact (meets_normalizeWrite haccepted).bind fun _ _ => meets_ok trivial
  | boundary boundary =>
    refine ⟨fun _ h => h, fun _ => ?_⟩
    cases boundary <;> exact meets_ok trivial
  | submitAnalytics =>
    refine ⟨fun _ h => h, fun _ => ?_⟩
    unfold normalizeStatement
    dsimp only
    split
    · exact meets_ok trivial
    · exact meets_reject _ _
  | procedure => exact ⟨fun _ h => h, fun _ => meets_reject _ _⟩

/-! ### The compiler -/

theorem meets_validateOutput (program : LogicalProgram) :
    Meets (validateOutput program) fun _ => True := by
  unfold validateOutput
  split
  · exact meets_ok trivial
  · exact meets_reject _ _

/-- The source is a query that the analysis accepts, with a `COUNT(*)` as a system
time that normalization comes to. -/
def CountsInTime (source : String) (catalog : SchemaCatalog) : Prop :=
  ∃ tokens, lex source = .ok tokens ∧ ∃ ast, parse tokens = .ok ast ∧
    ∃ typed, analyze catalog ast = .ok typed ∧ PanicsAtCount ast.statement

theorem meets_compile_iff (source : String) (catalog : SchemaCatalog) :
    Meets (compile source catalog) (fun _ => True) ↔ ¬ CountsInTime source catalog := by
  refine meets_bind_iff_not (meets_lex source) fun tokens htokens => ?_
  refine meets_bind_iff_not (meets_parse ((meets_lex source).of_ok htokens)) fun ast _ => ?_
  refine meets_bind_iff_not (meets_analyze catalog ast) fun typed htyped => ?_
  obtain ⟨hstatement, haccepted⟩ := (meets_analyze catalog ast).of_ok htyped
  have hnormalize : Meets (normalize typed) (fun _ => True) ↔ ¬ PanicsAtCount ast.statement := by
    unfold normalize
    rw [meets_bind_iff fun _ _ => meets_ok trivial, hstatement,
      meets_normalizeStatement_iff haccepted]
  rw [meets_bind_iff, hnormalize]
  intro program _
  exact (meets_validateOutput program).bind fun _ _ => meets_ok trivial

/-- The compiler returns a program or an error, and neither panics nor runs on,
exactly for the sources that do not use `COUNT(*)` as a system time. -/
theorem compile_returns_iff (source : String) (catalog : SchemaCatalog) :
    (∃ program, compile source catalog = .ok program) ∨
        (∃ error, compile source catalog = .error (.error error)) ↔
      ¬ CountsInTime source catalog := by
  rw [← meets_true_iff, meets_compile_iff]

def failureOf {α : Type} : Outcome α → Option Failure
  | .ok _ => none
  | .error failure => some failure

theorem count_as_system_time_panics :
    failureOf (compile "MATCH (a) FOR SYSTEM_TIME AS OF COUNT(*) RETURN a" fun _ => none) =
        some (.panic "COUNT(*) is normalized as an aggregate") ∧
      ¬ ((∃ program, compile "MATCH (a) FOR SYSTEM_TIME AS OF COUNT(*) RETURN a" (fun _ => none) =
          .ok program) ∨
        ∃ error, compile "MATCH (a) FOR SYSTEM_TIME AS OF COUNT(*) RETURN a" (fun _ => none) =
          .error (.error error)) := by
  have hpanic : failureOf (compile "MATCH (a) FOR SYSTEM_TIME AS OF COUNT(*) RETURN a"
      fun _ => none) = some (.panic "COUNT(*) is normalized as an aggregate") := by
    decide +kernel
  refine ⟨hpanic, ?_⟩
  rintro (⟨program, h⟩ | ⟨error, h⟩)
  · rw [h] at hpanic
    cases hpanic
  · rw [h] at hpanic
    cases hpanic

end DtgProxy.Language
