import DtgProxy.Language.Expansion

/-! # The plan of a statement

Over the plan of its clauses a query has a filter for its condition, a sort and
its result: a projection to the returned expressions, or a count.
-/
namespace DtgProxy.Language

open Lib

/-! ### The condition and the sort keys -/

theorem exactVertexLookup_constant (clauses : List Match) (condition : Option (Expr × Expr)) :
    LookupConstant (exactVertexLookup clauses condition) := by
  have hidentity : ∀ expression, vertexIdentityExpression expression = true →
      expression ≠ .countStar ∧ expression.variables = [] := by
    intro expression h
    cases expression with
    | integer | parameter => exact ⟨by simp, rfl⟩
    | _ => cases h
  intro identity h
  unfold exactVertexLookup at h
  split at h
  · split at h
    · cases h
    · split_ifs at h with hleft hright
      · cases h
        exact hidentity _ hleft.2
      · cases h
        exact hidentity _ hright.2
  · cases h

section Nodes

variable {scope : List String}

/-- A node that keeps the columns of its input and introduces none. -/
theorem grows_push {kind : LogicalNodeKind} {draft : Draft} (hkeeps : kind.computes = none)
    (hinputs : kind.inputs = [draft.root]) (hintroduces : kind.introduces = [])
    (hedge : kind.edge = none) :
    Grows draft (push draft.nodes kind) [⟨UInt32.ofNat draft.nodes.length, kind⟩] scope scope [] []
      (∀ column ∈ kind.references, column ∈ scope) := by
  have hpush := @Grows.push scope kind draft hkeeps hinputs (fun edge h => by
    rw [hedge] at h
    cases h)
  rw [hintroduces, hedge, List.append_nil] at hpush
  exact hpush

theorem exists_normalizeWhere (lookup : Option Expr) {condition : Option (Expr × Expr)}
    (hcount : ∀ pair, condition = some pair → pair.1 ≠ .countStar ∧ pair.2 ≠ .countStar)
    (draft : Draft) :
    ∃ after added, normalizeWhere lookup condition draft = .ok after ∧
      Grows draft after added scope scope [] [] (lookup = none → ∀ pair, condition = some pair →
        ∀ var ∈ pair.1.variables ++ pair.2.variables, var ∈ scope) := by
  cases lookup with
  | some =>
    exact ⟨draft, [], rfl, (Grows.refl draft scope).congr rfl rfl (by simp)⟩
  | none =>
    cases condition with
    | none => exact ⟨draft, [], rfl, (Grows.refl draft scope).congr rfl rfl (by simp)⟩
    | some pair =>
      obtain ⟨hleft, hright⟩ := hcount _ rfl
      obtain ⟨first, hfirst, hcolumns⟩ := exists_logicalExpr hleft
      obtain ⟨second, hsecond, hcolumns'⟩ := exists_logicalExpr hright
      refine ⟨push draft.nodes (.filter draft.root (.binary first .equal second)), _, ?_,
        (grows_push rfl rfl rfl rfl).congr rfl rfl ?_⟩
      · simp only [normalizeWhere]
        rw [hfirst, hsecond]
        rfl
      · simp [LogicalNodeKind.references, LogicalExpr.columns, hcolumns, hcolumns']

variable {keys : List OrderKey}

theorem exists_mapM_normalizeKey (hcount : ∀ key ∈ keys, key.expression ≠ .countStar) :
    ∃ sortKeys, keys.mapM normalizeKey = .ok sortKeys ∧
      sortKeys.flatMap (·.expression.columns) = keys.flatMap (·.expression.variables) := by
  induction keys with
  | nil => exact ⟨[], rfl, rfl⟩
  | cons key keys ih =>
    obtain ⟨sortKeys, hmap, hcolumns⟩ := ih fun k hk => hcount k (List.mem_cons_of_mem key hk)
    obtain ⟨expression, hexpression, heq⟩ := exists_logicalExpr (hcount key List.mem_cons_self)
    refine ⟨⟨expression, sortDirection key.direction⟩ :: sortKeys, ?_, ?_⟩
    · rw [List.mapM_cons, hmap]
      simp only [normalizeKey]
      rw [hexpression]
      rfl
    · rw [List.flatMap_cons, List.flatMap_cons, heq, hcolumns]

theorem exists_normalizeOrder (hcount : ∀ key ∈ keys, key.expression ≠ .countStar) (draft : Draft) :
    ∃ after added, normalizeOrder keys draft = .ok after ∧
      Grows draft after added scope scope [] []
        (∀ key ∈ keys, ∀ var ∈ key.expression.variables, var ∈ scope) := by
  unfold normalizeOrder
  cases keys with
  | nil => exact ⟨draft, [], rfl, (Grows.refl draft scope).congr rfl rfl (by simp)⟩
  | cons =>
    obtain ⟨sortKeys, hmap, hcolumns⟩ := exists_mapM_normalizeKey hcount
    refine ⟨push draft.nodes (.sort ⟨draft.root, sortKeys⟩), _, ?_,
      (grows_push rfl rfl rfl rfl).congr rfl rfl ?_⟩
    · rw [hmap]
      rfl
    · change (∀ column ∈ sortKeys.flatMap (·.expression.columns), column ∈ scope) ↔ _
      rw [hcolumns]
      simp only [List.mem_flatMap, forall_exists_index, and_imp]
      exact ⟨fun h k hk var hvar => h var k hk hvar, fun h var k hk hvar => h k hk var hvar⟩

end Nodes

/-! ### Result columns -/

/-- The alias of a column whose name is taken. -/
def numberedAlias (base : String) (suffix : ℕ) : String := base ++ "_" ++ toString suffix

theorem numberedAlias_injective (base : String) : Function.Injective (numberedAlias base) := by
  intro n m h
  exact Nat.repr_injective ((String.append_right_inj _).mp h)

theorem numberedAlias_ne (base : String) (suffix : ℕ) : base ≠ numberedAlias base suffix := by
  intro h
  have hlength := congrArg String.length h
  simp only [numberedAlias, String.length_append] at hlength
  have hone : "_".length = 1 := rfl
  omega

/-- The search for an alias ends before the bound unless all its candidates are taken. -/
theorem freeAlias_or (aliases : List String) (base : String) (fuel suffix : ℕ)
    (candidate : String) :
    (∃ name, freeAlias aliases base (fuel + 1) suffix candidate = .ok name) ∨
      ∀ name ∈ candidate :: (List.range' suffix fuel).map (numberedAlias base),
        name ∈ aliases := by
  induction fuel generalizing suffix candidate with
  | zero =>
    by_cases h : candidate ∈ aliases
    · exact .inr (by simpa using h)
    · exact .inl ⟨candidate, by simp [freeAlias, h]⟩
  | succ fuel ih =>
    by_cases h : candidate ∈ aliases
    · rw [freeAlias, if_pos h, List.range'_succ, List.map_cons, List.forall_mem_cons]
      exact (ih (suffix + 1) (numberedAlias base suffix)).imp_right fun hall => ⟨h, hall⟩
    · exact .inl ⟨candidate, by simp [freeAlias, h]⟩

/-- There are more candidates than aliases taken. -/
theorem exists_freeAlias (aliases : List String) (base : String) :
    ∃ name, freeAlias aliases base (aliases.length + 1) 2 base = .ok name := by
  refine (freeAlias_or aliases base aliases.length 2 base).resolve_right fun hall => ?_
  have hnodup : (base :: (List.range' 2 aliases.length).map (numberedAlias base)).Nodup := by
    refine List.nodup_cons.mpr ⟨?_, (List.nodup_range').map (numberedAlias_injective base)⟩
    rw [List.mem_map]
    rintro ⟨suffix, -, heq⟩
    exact numberedAlias_ne base suffix heq.symm
  have hle := (hnodup.subperm hall).length_le
  simp at hle

/-- A column projects one of the returned expressions. -/
def Projects (returns : List Expr) (projection : Projection) : Prop :=
  ∃ expression ∈ returns, expression ≠ .countStar ∧
    projection.expression.columns = expression.variables

theorem exists_normalizeProjections {returns : List Expr}
    (hcount : ∀ expression ∈ returns, expression ≠ .countStar)
    (bindings : OrderedMap String LogicalType) :
    ∃ projections schema, normalizeProjections returns bindings = .ok (projections, schema) ∧
      ∀ projection ∈ projections, Projects returns projection := by
  have hfold : ∀ entries : List (Expr × ℕ), (∀ entry ∈ entries, entry.1 ∈ returns) →
      ∀ columns : List (Projection × Field), (∀ column ∈ columns, Projects returns column.1) →
        ∃ last, entries.foldlM (normalizeProjection bindings) columns = .ok last ∧
          ∀ column ∈ last, Projects returns column.1 := by
    intro entries
    induction entries with
    | nil => exact fun _ columns hcolumns => ⟨columns, rfl, hcolumns⟩
    | cons entry entries ih =>
      intro hentries columns hcolumns
      have hreturned := hentries entry List.mem_cons_self
      have hne := hcount _ hreturned
      obtain ⟨logical, hlogical, heq⟩ := exists_logicalExpr hne
      obtain ⟨name, hname⟩ := exists_freeAlias (columns.map fun column => column.2.name)
        ((expressionAlias entry.1).getD ("expression_" ++ toString entry.2))
      have hstep : normalizeProjection bindings columns entry =
          .ok (columns ++ [(⟨logical, name⟩, ⟨name, (expressionType bindings entry.1).1,
            (expressionType bindings entry.1).2⟩)]) := by
        simp only [normalizeProjection]
        rw [hname, hlogical]
        rfl
      rw [List.foldlM_cons, hstep]
      refine ih (fun e he => hentries e (List.mem_cons_of_mem entry he)) _ fun column hcolumn => ?_
      rcases List.mem_append.mp hcolumn with hcolumn | hcolumn
      · exact hcolumns column hcolumn
      · rw [List.mem_singleton.mp hcolumn]
        exact ⟨entry.1, hreturned, hne, heq⟩
  obtain ⟨last, hlast, hprojects⟩ := hfold returns.zipIdx
    (fun entry hentry => List.fst_mem_of_mem_zipIdx hentry) [] (by simp)
  refine ⟨last.map Prod.fst, ⟨last.map Prod.snd⟩, ?_, ?_⟩
  · unfold normalizeProjections
    rw [hlast]
    rfl
  · intro projection hprojection
    obtain ⟨column, hcolumn, rfl⟩ := List.mem_map.mp hprojection
    exact hprojects column hcolumn

/-- `COUNT(*)` is returned alone or not at all. -/
def Query.CountsAlone (query : Query) : Prop :=
  Expr.countStar ∈ query.returns → query.returns = [.countStar]

theorem exists_resultColumns {query : Query} (halone : query.CountsAlone) :
    ∃ projections schema, resultColumns query = .ok (projections, schema) ∧
      ∀ columns, projections = some columns →
        ∀ projection ∈ columns, Projects query.returns projection := by
  unfold resultColumns
  by_cases hcount : Expr.countStar ∈ query.returns
  · rw [if_pos hcount, if_pos (halone hcount)]
    exact ⟨none, _, rfl, by simp⟩
  · have hne : ∀ expression ∈ query.returns, expression ≠ .countStar := by
      rintro expression hexpression rfl
      exact hcount hexpression
    obtain ⟨projections, schema, hprojections, hprojects⟩ :=
      exists_normalizeProjections hne (queryBindings query)
    rw [if_neg hcount, hprojections]
    refine ⟨some projections, schema, rfl, ?_⟩
    intro columns heq
    cases heq
    exact hprojects

/-- Other uses of `COUNT(*)` in the result are rejected. -/
theorem resultColumns_of_not_alone {query : Query} (h : ¬ query.CountsAlone) :
    ∃ error, resultColumns query = .error (.error error) := by
  unfold Query.CountsAlone at h
  push Not at h
  unfold resultColumns
  rw [if_pos h.1, if_neg h.2]
  exact ⟨_, rfl⟩

end DtgProxy.Language
