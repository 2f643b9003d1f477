import EngPlatform.Sql.Admission
import EngPlatform.Lib.Prog
import Mathlib.Data.Set.Basic

/-!
# What an admitted statement names

The nodes that occur in a statement, each with the WITH queries that are in scope where it occurs. Every
node of an admitted statement is of the supported language, but for the operators of sublinks.
-/

set_option linter.dupNamespace false

namespace Sql

open Interleave

/-! ## Scopes -/

def cteNames (ctes : List Cte) : Set String := {name | ∃ cte ∈ ctes, cte.ctename = name}

/-- The scope of a query of a WITH clause, of those before it. -/
def With.scope (w : With) (before : List Cte) (outer : Set String) : Set String :=
  if w.isRecursive then outer ∪ cteNames w.ctes else outer ∪ cteNames before

/-- The scope of a SELECT. -/
def innerScope : Option With → Set String → Set String
  | none, outer => outer
  | some w, outer => outer ∪ cteNames w.ctes

/-- A node occurs in a value, that is in one scope, in another. -/
inductive Occurs : Value → Set String → Node → Set String → Prop
  | here {n scope} : Occurs (.node n) scope n scope
  | item {items v scope n scope'} : v ∈ items → Occurs v scope n scope' → Occurs (.tuple items) scope n scope'
  | field {kind fields name v scope n scope'} : (name, v) ∈ fields → Occurs v scope n scope' →
      Occurs (.node (.other kind fields)) scope n scope'
  | clause {withClause fields name v scope n scope'} : (name, v) ∈ fields →
      Occurs v (innerScope withClause scope) n scope' → Occurs (.node (.select withClause fields)) scope n scope'
  | query {w fields before cte after v scope n scope'} : w.ctes = before ++ cte :: after →
      v ∈ [.node cte.ctequery, cte.aliascolnames, cte.searchClause, cte.cycleClause] →
      Occurs v (w.scope before scope) n scope' → Occurs (.node (.select (some w) fields)) scope n scope'

/-- The relation that a node names. -/
def Node.relation : Node → Option (String × String)
  | .other .rangeVar fields =>
    match getattr fields "schemaname", getattr fields "relname" with
    | .text schema, .text name => some (schema, name)
    | _, _ => none
  | _ => none

/-- What is meant by a supported node, in a scope and with the relations that were collected. -/
def Node.admitted (schemas : List String) (scope : Set String) (relations : Finset (String × String)) : Node → Prop
  | .select _ fields => (getattr fields "intoClause").truthy = false ∧ (getattr fields "lockingClause").truthy = false ∧
      (getattr fields "valuesLists").truthy = false
  | .other kind fields =>
    match kind with
    | .rangeVar => (getattr fields "catalogname").truthy = false ∧ ∃ name, getattr fields "relname" = .text name ∧
        ((getattr fields "schemaname" = .absent ∧ name ∈ scope) ∨ ∃ schema,
          getattr fields "schemaname" = .text schema ∧ schema ∈ schemas ∧ (schema, name) ∈ relations)
    | .funcCall => ∃ list, names (getattr fields "funcname") = .ok list ∧ allowed safeFunctions list = true
    | .typeName => ∃ list, names (getattr fields "names") = .ok list ∧ allowed safeTypes list = true
    | .aExpr => ∃ list, names (getattr fields "name") = .ok list ∧
        (between (getattr fields "kind") list || safeOperator list) = true
    | .sortBy => (getattr fields "useOp").truthy = false
    | .sqlValueFunction => ∃ op, getattr fields "op" = .enum op ∧ op ∈ valueFunctions
    | kind => kind.safe = true

theorem Node.admitted.mono {schemas : List String} {scope : Set String} {relations relations' : Finset (String × String)}
    {n : Node} (h : n.admitted schemas scope relations) (hsub : relations ⊆ relations') :
    n.admitted schemas scope relations' := by
  cases n with
  | select withClause fields => exact h
  | other kind fields =>
    cases kind
    case rangeVar =>
      obtain ⟨hcatalog, name, hname, hwhere⟩ := h
      refine ⟨hcatalog, name, hname, hwhere.imp id ?_⟩
      rintro ⟨schema, hschema, hin, hmem⟩
      exact ⟨schema, hschema, hin, hsub hmem⟩
    all_goals exact h

/-! ## What a visit does -/

/-- All nodes of a value are supported, and the relations added are those that they name. -/
structure Explored (schemas : List String) (v : Value) (visible : List String) (s s' : State) : Prop where
  kept : s.relations ⊆ s'.relations
  admitted : ∀ {scope n scope'}, (∀ x ∈ visible, x ∈ scope) → Occurs v scope n scope' →
    n.admitted schemas scope' s'.relations
  found : ∀ scope, ∀ r ∈ s'.relations, r ∉ s.relations → ∃ n scope', Occurs v scope n scope' ∧ n.relation = some r

/-- Whatever a visit accepts it has explored. -/
def Explores (schemas : List String) (visit : Visit) : Prop :=
  ∀ v visible s s', visit v visible s = .ok s' → Explored schemas v visible s s'

theorem Occurs.truthy {v : Value} {scope scope' : Set String} {n : Node} (h : Occurs v scope n scope') :
    v.truthy = true := by
  cases h with
  | item hmem _ =>
    unfold Value.truthy
    rw [Bool.not_eq_true', List.isEmpty_eq_false_iff_exists_mem]
    exact ⟨_, hmem⟩
  | _ => rfl

section

variable {schemas : List String} {v : Value} {visible : List String} {s s₁ s' : State}

/-- A value without nodes. -/
theorem Explored.leaf (h : ∀ {scope n scope'}, ¬Occurs v scope n scope') : Explored schemas v visible s s where
  kept := Finset.Subset.refl _
  admitted _ ho := absurd ho h
  found _ _ hr hnew := absurd hr hnew

theorem Explored.cons {vs : List Value} (h : Explored schemas v visible s s₁)
    (hrest : Explored schemas (.tuple vs) visible s₁ s') : Explored schemas (.tuple (v :: vs)) visible s s' where
  kept := h.kept.trans hrest.kept
  admitted hvisible ho := by
    cases ho with
    | item hmem ho =>
      rcases List.mem_cons.mp hmem with rfl | hmem
      · exact (h.admitted hvisible ho).mono hrest.kept
      · exact hrest.admitted hvisible (.item hmem ho)
  found scope r hr hnew := by
    by_cases hold : r ∈ s₁.relations
    · obtain ⟨n, scope', ho, hn⟩ := h.found scope r hold hnew
      exact ⟨n, scope', .item List.mem_cons_self ho, hn⟩
    · obtain ⟨n, scope', ho, hn⟩ := hrest.found scope r hr hold
      cases ho with
      | item hmem ho => exact ⟨n, scope', .item (List.mem_cons_of_mem _ hmem) ho, hn⟩

theorem visitAll_explored {visit : Visit} (hvisit : Explores schemas visit) :
    ∀ {values : List Value} {s s' : State}, visitAll visit visible s values = .ok s' →
      Explored schemas (.tuple values) visible s s'
  | [], s, s', h => by
    obtain rfl := Except.ok.inj h
    exact .leaf fun ho => absurd ho.truthy (by decide)
  | v :: values, s, s', h => by
    unfold visitAll at h
    rw [List.foldlM_cons] at h
    obtain ⟨s₁, hv, hrest⟩ := bind_ok.mp h
    exact (hvisit v visible s s₁ hv).cons (visitAll_explored hvisit hrest)

/-- What a check says of its node. -/
theorem check_admitted {kind : Kind} {fields : Fields} (hsafe : kind.safe = true)
    (h : check schemas visible kind fields s = .ok s') : s.relations ⊆ s'.relations ∧
      (∀ {scope : Set String}, (∀ x ∈ visible, x ∈ scope) →
        (Node.other kind fields).admitted schemas scope s'.relations) ∧
      ∀ r ∈ s'.relations, r ∉ s.relations → (Node.other kind fields).relation = some r := by
  have hsame : ∀ {result : Except String Unit}, (result.map fun _ => s) = .ok s' → result = .ok () ∧ s = s' := by
    intro result hresult
    cases result with
    | error e => cases hresult
    | ok u => exact ⟨rfl, Except.ok.inj hresult⟩
  unfold check at h
  cases kind
  case rangeVar =>
    dsimp only at h
    unfold checkRangeVar at h
    split at h
    next relname hcatalog hname hschema =>
      split_ifs at h with hin
      obtain rfl := Except.ok.inj h
      exact ⟨Finset.Subset.refl _, fun hvisible => ⟨hcatalog, relname, hname, .inl ⟨hschema, hvisible _ hin⟩⟩,
        fun r hr hnew => absurd hr hnew⟩
    next relname schemaname hcatalog hname hschema =>
      split_ifs at h with hin
      obtain rfl := Except.ok.inj h
      refine ⟨Finset.subset_insert _ _, fun _ => ⟨hcatalog, relname, hname, .inr ⟨schemaname, hschema, hin,
        Finset.mem_insert_self _ _⟩⟩, fun r hr hnew => ?_⟩
      obtain rfl := (Finset.mem_insert.mp hr).resolve_right hnew
      unfold Node.relation
      dsimp only
      rw [hschema, hname]
    · cases h
  case funcCall =>
    obtain ⟨hcheck, rfl⟩ := hsame h
    obtain ⟨list, hlist, hcheck⟩ := bind_ok.mp hcheck
    split_ifs at hcheck with hallowed
    exact ⟨Finset.Subset.refl _, fun _ => ⟨list, hlist, hallowed⟩, fun r hr hnew => absurd hr hnew⟩
  case aExpr =>
    obtain ⟨hcheck, rfl⟩ := hsame h
    obtain ⟨list, hlist, hcheck⟩ := bind_ok.mp hcheck
    split_ifs at hcheck with hallowed
    exact ⟨Finset.Subset.refl _, fun _ => ⟨list, hlist, hallowed⟩, fun r hr hnew => absurd hr hnew⟩
  case sortBy =>
    obtain ⟨hcheck, rfl⟩ := hsame h
    unfold checkSortBy at hcheck
    split_ifs at hcheck with huse
    exact ⟨Finset.Subset.refl _, fun _ => Bool.eq_false_iff.mpr huse, fun r hr hnew => absurd hr hnew⟩
  case typeName =>
    obtain ⟨hcheck, rfl⟩ := hsame h
    obtain ⟨list, hlist, hcheck⟩ := bind_ok.mp hcheck
    split_ifs at hcheck with hallowed
    rw [Bool.and_eq_true, Bool.and_eq_true] at hallowed
    exact ⟨Finset.Subset.refl _, fun _ => ⟨list, hlist, hallowed.1.1⟩, fun r hr hnew => absurd hr hnew⟩
  case sqlValueFunction =>
    obtain ⟨hcheck, rfl⟩ := hsame h
    unfold checkValueFunction at hcheck
    split at hcheck
    next op hop =>
      split_ifs at hcheck with hin
      exact ⟨Finset.Subset.refl _, fun _ => ⟨op, hop, hin⟩, fun r hr hnew => absurd hr hnew⟩
    · cases hcheck
  all_goals
    obtain rfl := Except.ok.inj h
    exact ⟨Finset.Subset.refl _, fun _ => hsafe, fun r hr hnew => absurd hr hnew⟩

/-- A node whose attributes are explored after its check. -/
theorem Explored.other {kind : Kind} {fields : Fields} (hsafe : kind.safe = true)
    (hcheck : check schemas visible kind fields s = .ok s₁)
    (hrest : Explored schemas (.tuple (fields.map Prod.snd)) visible s₁ s') :
    Explored schemas (.node (.other kind fields)) visible s s' := by
  obtain ⟨hkept, hadmitted, hfound⟩ := check_admitted hsafe hcheck
  constructor
  · exact hkept.trans hrest.kept
  · intro scope n scope' hvisible ho
    cases ho with
    | here => exact (hadmitted hvisible).mono hrest.kept
    | field hmem ho => exact hrest.admitted hvisible (.item (List.mem_map_of_mem hmem) ho)
  · intro scope r hr hnew
    by_cases hold : r ∈ s₁.relations
    · exact ⟨_, scope, .here, hfound r hold hnew⟩
    · obtain ⟨n, scope', ho, hn⟩ := hrest.found scope r hr hold
      cases ho with
      | item hmem ho =>
        obtain ⟨⟨name, v⟩, hfield, rfl⟩ := List.mem_map.mp hmem
        exact ⟨n, scope', .field hfield ho, hn⟩

end

/-! ## WITH clauses -/

/-- What a WITH query consists of. -/
def Cte.values (cte : Cte) : List Value :=
  [.node cte.ctequery, cte.aliascolnames, cte.searchClause, cte.cycleClause]

/-- The queries `ctes`, that follow those of `before`, are explored, each in its scope. -/
structure CtesExplored (schemas : List String) (w : With) (before ctes : List Cte) (visible visible' : List String)
    (s s' : State) : Prop where
  kept : s.relations ⊆ s'.relations
  names : ∀ {outer : Set String}, (∀ x ∈ visible, x ∈ outer ∪ cteNames before) →
    ∀ x ∈ visible', x ∈ outer ∪ cteNames (before ++ ctes)
  admitted : ∀ {outer : Set String}, (∀ x ∈ visible, x ∈ outer ∪ cteNames before) → ∀ {earlier} {cte : Cte} {later},
    ctes = earlier ++ cte :: later → ∀ v ∈ cte.values, ∀ {n scope'},
      Occurs v (w.scope (before ++ earlier) outer) n scope' → n.admitted schemas scope' s'.relations
  found : ∀ outer, ∀ r ∈ s'.relations, r ∉ s.relations → ∃ earlier, ∃ cte : Cte, ∃ later, ctes = earlier ++ cte :: later ∧
    ∃ v ∈ cte.values, ∃ n scope', Occurs v (w.scope (before ++ earlier) outer) n scope' ∧ n.relation = some r

theorem cteNames_append (before ctes : List Cte) : cteNames (before ++ ctes) = cteNames before ∪ cteNames ctes := by
  ext x
  simp [cteNames, or_and_right, exists_or]

theorem cteNames_cons (cte : Cte) (ctes : List Cte) : cteNames (cte :: ctes) = {cte.ctename} ∪ cteNames ctes := by
  ext x
  simp [cteNames, eq_comm]

/-- What is visible in a query is in its scope. -/
theorem With.mem_scope {w : With} {before : List Cte} {cte : Cte} {later : List Cte} (hw : w.ctes = before ++ cte :: later)
    {visible : List String} {outer : Set String} (h : ∀ x ∈ visible, x ∈ outer ∪ cteNames before) :
    (∀ x ∈ visible, x ∈ w.scope before outer) ∧
      ∀ x ∈ if w.isRecursive then cte.ctename :: visible else visible, x ∈ w.scope before outer := by
  have hall : ∀ x ∈ visible, x ∈ w.scope before outer := by
    intro x hx
    unfold With.scope
    by_cases hrec : w.isRecursive = true
    · rw [if_pos hrec, hw, cteNames_append]
      exact (h x hx).imp id .inl
    · rw [if_neg hrec]
      exact h x hx
  refine ⟨hall, fun x hx => ?_⟩
  by_cases hrec : w.isRecursive = true
  · rw [if_pos hrec] at hx
    rcases List.mem_cons.mp hx with rfl | hx
    · unfold With.scope
      rw [if_pos hrec, hw, cteNames_append, cteNames_cons]
      exact .inr (.inr (.inl rfl))
    · exact hall x hx
  · rw [if_neg hrec] at hx
    exact hall x hx

/-- The first query, after which the others are explored. -/
theorem CtesExplored.cons {schemas : List String} {w : With} {before ctes : List Cte} {cte : Cte}
    {visible visible' : List String} {s s₁ s₂ s' : State} (hw : w.ctes = before ++ cte :: ctes)
    (hquery : Explored schemas (.node cte.ctequery)
      (if w.isRecursive then cte.ctename :: visible else visible) s s₁)
    (hcolumns : Explored schemas cte.aliascolnames visible s₁ s₂)
    (hclauses : cte.searchClause.truthy = false ∧ cte.cycleClause.truthy = false)
    (hrest : CtesExplored schemas w (before ++ [cte]) ctes (cte.ctename :: visible) visible' s₂ s') :
    CtesExplored schemas w before (cte :: ctes) visible visible' s s' := by
  have hnext : ∀ {outer : Set String}, (∀ x ∈ visible, x ∈ outer ∪ cteNames before) →
      ∀ x ∈ cte.ctename :: visible, x ∈ outer ∪ cteNames (before ++ [cte]) := by
    intro outer hvisible x hx
    rw [cteNames_append, cteNames_cons]
    rcases List.mem_cons.mp hx with rfl | hx
    · exact .inr (.inr (.inl rfl))
    · exact (hvisible x hx).imp id .inl
  constructor
  · exact (hquery.kept.trans hcolumns.kept).trans hrest.kept
  · intro outer hvisible x hx
    have hin := hrest.names (hnext hvisible) x hx
    rwa [List.append_assoc, List.singleton_append] at hin
  · intro outer hvisible earlier cte' later hctes v hv n scope' ho
    obtain ⟨hscope, hscope'⟩ := With.mem_scope hw hvisible
    cases earlier with
    | nil =>
      obtain ⟨rfl, rfl⟩ := List.cons.inj hctes
      rw [List.append_nil] at ho
      unfold Cte.values at hv
      simp only [List.mem_cons, List.not_mem_nil, or_false] at hv
      rcases hv with rfl | rfl | rfl | rfl
      · exact (hquery.admitted hscope' ho).mono (hcolumns.kept.trans hrest.kept)
      · exact (hcolumns.admitted hscope ho).mono hrest.kept
      · exact absurd (ho.truthy.symm.trans hclauses.1) (by decide)
      · exact absurd (ho.truthy.symm.trans hclauses.2) (by decide)
    | cons first earlier =>
      obtain ⟨rfl, hlater⟩ := List.cons.inj hctes
      refine hrest.admitted (hnext hvisible) hlater v hv ?_
      rwa [List.append_assoc, List.singleton_append]
  · intro outer r hr hnew
    by_cases hold : r ∈ s₂.relations
    · by_cases holder : r ∈ s₁.relations
      · obtain ⟨n, scope', ho, hn⟩ := hquery.found _ r holder hnew
        exact ⟨[], cte, ctes, rfl, _, List.mem_cons_self, n, scope', by rwa [List.append_nil], hn⟩
      · obtain ⟨n, scope', ho, hn⟩ := hcolumns.found _ r hold holder
        exact ⟨[], cte, ctes, rfl, _, List.mem_cons_of_mem _ List.mem_cons_self, n, scope',
          by rwa [List.append_nil], hn⟩
    · obtain ⟨earlier, cte', later, rfl, v, hv, n, scope', ho, hn⟩ := hrest.found outer r hr hold
      rw [List.append_assoc, List.singleton_append] at ho
      exact ⟨cte :: earlier, cte', later, rfl, v, hv, n, scope', ho, hn⟩

theorem visitCtes_explored {schemas : List String} {visit : Visit} (hvisit : Explores schemas visit) {w : With} :
    ∀ {before ctes : List Cte} {visible visible' : List String} {s s' : State}, w.ctes = before ++ ctes →
      visitCtes visit w.isRecursive ctes visible s = .ok (visible', s') →
      CtesExplored schemas w before ctes visible visible' s s'
  | before, [], visible, visible', s, s', hw, h => by
    obtain ⟨rfl, rfl⟩ := Prod.mk.inj (Except.ok.inj h)
    refine ⟨Finset.Subset.refl _, fun hnames => by rwa [List.append_nil], ?_, fun _ r hr hnew => absurd hr hnew⟩
    intro _ _ earlier cte later hctes
    exact absurd hctes (by simp)
  | before, cte :: ctes, visible, visible', s, s', hw, h => by
    unfold visitCtes at h
    dsimp only at h
    by_cases hselect : (!cte.ctequery.isSelect) = true
    · rw [if_pos hselect] at h
      cases h
    rw [if_neg hselect] at h
    obtain ⟨s₁, hquery, h⟩ := bind_ok.mp h
    by_cases hclauses : (cte.searchClause.truthy || cte.cycleClause.truthy) = true
    · rw [if_pos hclauses] at h
      cases h
    rw [if_neg hclauses] at h
    obtain ⟨s₂, hcolumns, h⟩ := bind_ok.mp h
    rw [Bool.or_eq_true, not_or, Bool.not_eq_true, Bool.not_eq_true] at hclauses
    have hquery := hvisit _ _ _ _ hquery
    have hcolumns := hvisit _ _ _ _ hcolumns
    exact .cons hw hquery hcolumns hclauses
      (visitCtes_explored hvisit (by rw [hw, List.append_assoc]; rfl) h)

/-- What is explored before the clauses of a SELECT. -/
def WithExplored (schemas visible visible' : List String) (s s' : State) : Option With → Prop
  | none => visible' = visible ∧ s'.relations = s.relations
  | some w => CtesExplored schemas w [] w.ctes visible visible' s s'

/-! ## Statements -/

section

variable {schemas : List String} {visible visible' : List String} {s s₁ s' : State}

/-- A SELECT whose clauses are explored after its WITH queries. -/
theorem Explored.select {withClause : Option With} {fields : Fields}
    (hnone : (getattr fields "intoClause").truthy = false ∧ (getattr fields "lockingClause").truthy = false ∧
      (getattr fields "valuesLists").truthy = false)
    (hctes : WithExplored schemas visible visible' s s₁ withClause)
    (hrest : Explored schemas (.tuple (fields.map Prod.snd)) visible' s₁ s') :
    Explored schemas (.node (.select withClause fields)) visible s s' := by
  have hkept : s.relations ⊆ s₁.relations := by
    cases withClause with
    | none => exact hctes.2.symm.subset
    | some w => exact hctes.kept
  have hinner : ∀ {outer : Set String}, (∀ x ∈ visible, x ∈ outer) → ∀ x ∈ visible', x ∈ innerScope withClause outer := by
    intro outer hvisible
    cases withClause with
    | none =>
      obtain ⟨rfl, -⟩ := hctes
      exact hvisible
    | some w => exact hctes.names fun x hx => .inl (hvisible x hx)
  constructor
  · exact hkept.trans hrest.kept
  · intro scope n scope' hvisible ho
    cases ho with
    | here => exact hnone
    | clause hmem ho => exact hrest.admitted (hinner hvisible) (.item (List.mem_map_of_mem hmem) ho)
    | query hw hmem ho =>
      exact (hctes.admitted (fun x hx => .inl (hvisible x hx)) hw _ hmem ho).mono hrest.kept
  · intro scope r hr hnew
    by_cases hold : r ∈ s₁.relations
    · cases withClause with
      | none =>
        rw [hctes.2] at hold
        exact absurd hold hnew
      | some w =>
        obtain ⟨earlier, cte, later, hw, v, hv, n, scope', ho, hn⟩ := hctes.found scope r hold hnew
        exact ⟨n, scope', .query hw hv ho, hn⟩
    · obtain ⟨n, scope', ho, hn⟩ := hrest.found (innerScope withClause scope) r hr hold
      cases ho with
      | item hmem ho =>
        obtain ⟨⟨name, v⟩, hfield, rfl⟩ := List.mem_map.mp hmem
        exact ⟨n, scope', .clause hfield ho, hn⟩

theorem visitNode_explored {visit : Visit} (hvisit : Explores schemas visit) {n : Node}
    (h : visitNode visit schemas visible s n = .ok s') : Explored schemas (.node n) visible s s' := by
  cases n with
  | select withClause fields =>
    unfold visitNode at h
    dsimp only at h
    by_cases hmany : s.visited + 1 > 4096
    · rw [if_pos hmany] at h
      cases h
    rw [if_neg hmany] at h
    by_cases hclauses : ((getattr fields "intoClause").truthy || (getattr fields "lockingClause").truthy ||
        (getattr fields "valuesLists").truthy) = true
    · rw [if_pos hclauses] at h
      cases h
    rw [if_neg hclauses] at h
    simp only [Bool.or_eq_true, not_or, Bool.not_eq_true, and_assoc] at hclauses
    obtain ⟨⟨inner, s₁⟩, hctes, h⟩ := bind_ok.mp h
    have hwith : WithExplored schemas visible inner { s with visited := s.visited + 1 } s₁ withClause := by
      cases withClause with
      | none =>
        obtain ⟨rfl, rfl⟩ := Prod.mk.inj (Except.ok.inj hctes)
        exact ⟨rfl, rfl⟩
      | some w => exact visitCtes_explored hvisit rfl hctes
    obtain ⟨hkept, hadmitted, hfound⟩ := Explored.select hclauses hwith (visitAll_explored hvisit h)
    exact ⟨hkept, hadmitted, hfound⟩
  | other kind fields =>
    unfold visitNode at h
    dsimp only at h
    by_cases hstop : (decide (s.visited + 1 > 4096) || !kind.safe) = true
    · rw [if_pos hstop] at h
      cases h
    rw [if_neg hstop] at h
    rw [Bool.or_eq_true, not_or, Bool.not_eq_true, Bool.not_eq_true, Bool.not_eq_false'] at hstop
    obtain ⟨s₁, hcheck, h⟩ := bind_ok.mp h
    obtain ⟨hkept, hadmitted, hfound⟩ := Explored.other hstop.2 hcheck (visitAll_explored hvisit h)
    exact ⟨hkept, hadmitted, hfound⟩

theorem visit_explored (schemas : List String) : ∀ stack, Explores schemas (visit schemas stack)
  | 0, _, _, _, _, h => by cases h
  | stack + 1, v, visible, s, s', h => by
    have ih := visit_explored schemas stack
    cases v with
    | tuple items => exact visitAll_explored ih h
    | node n => exact visitNode_explored ih h
    | _ =>
      obtain rfl := Except.ok.inj h
      exact .leaf fun ho => by cases ho

end

/-- In an admitted statement every node is supported where it occurs, and the relations returned are those named. -/
theorem validateQuery_complete {parse : String → Option (List Node)} {stack : ℕ} {sql : String} {schemas : List String}
    {relations : Finset (String × String)} (h : validateQuery parse stack sql schemas = .ok relations) :
    ∃ root, parse sql = some [root] ∧ root.isSelect = true ∧
      (∀ {n scope}, Occurs (.node root) ∅ n scope → n.admitted schemas scope relations) ∧
      ∀ r ∈ relations, ∃ n scope, Occurs (.node root) ∅ n scope ∧ n.relation = some r := by
  unfold validateQuery at h
  split at h
  · cases h
  next withClause fields hparse =>
    cases hvisit : visit schemas stack (.node (.select withClause fields)) [] ⟨∅, 0⟩ with
    | error e =>
      rw [hvisit] at h
      cases h
    | ok s =>
      rw [hvisit] at h
      obtain rfl := Except.ok.inj h
      obtain ⟨-, hadmitted, hfound⟩ := visit_explored schemas stack _ _ _ _ hvisit
      exact ⟨_, hparse, rfl, fun ho => hadmitted (by simp) ho, fun r hr => hfound ∅ r hr (by simp)⟩
  · cases h

/-- `WITH a AS (SELECT FROM sample.items) SELECT FROM a`. -/
def selectWith : Node :=
  .select (some (.mk false [.mk "a" (.select none [("fromClause", .tuple [.node (.other .rangeVar
    [("schemaname", .text "sample"), ("relname", .text "items")])])]) .absent .absent .absent]))
    [("fromClause", .tuple [.node (.other .rangeVar [("schemaname", .absent), ("relname", .text "a")])])]

theorem validateQuery_complete_demo : validateQuery (fun _ => some [selectWith]) 10 "" ["sample"] =
      .ok {("sample", "items")} ∧
    ∃ root, (fun _ => some [selectWith]) "" = some [root] ∧ root.isSelect = true ∧
      (∀ {n scope}, Occurs (.node root) ∅ n scope → n.admitted ["sample"] scope {("sample", "items")}) ∧
      ∀ r ∈ ({("sample", "items")} : Finset (String × String)), ∃ n scope, Occurs (.node root) ∅ n scope ∧
        n.relation = some r := by
  have h : validateQuery (fun _ => some [selectWith]) 10 "" ["sample"] = .ok {("sample", "items")} := by rfl
  exact ⟨h, validateQuery_complete h⟩

/-- The operator of a sublink is not looked at: `SELECT FROM sample.items WHERE 1 OPERATOR(sample.=) ANY (SELECT 1)`. -/
example : validateQuery (fun _ => some [.select none [("fromClause", .tuple [.node (.other .rangeVar
      [("schemaname", .text "sample"), ("relname", .text "items")])]),
    ("whereClause", .node (.other .subLink [("operName", .tuple [.node (.other .string [("sval", .text "sample")]),
      .node (.other .string [("sval", .text "=")])]), ("subselect", .node (.select none []))]))]]) 10 "" ["sample"] =
    .ok {("sample", "items")} := by rfl

end Sql
