import GraphForge.Binder.CensusTheorems

/-!
# Narrowed collects keep the results

Two runs are compared, of a plan and of its narrowed form. Their rows agree in every variable but
the narrowed lists, where one run has a list of whole nodes and the other the list of their
identities. The census makes sure that no expression tells the two apart, and the next projection
makes the rows equal again. What is left is a narrowed list in the last projection of the plan:
there the difference is part of the result.
-/

namespace GraphForge.Binder

open List

variable {V : Type}

/-! ## What is assumed of the engine -/

namespace Engine

variable (E : Engine V) (rows : List (V × List V × Option V))

/-- Rows that bring a node, further operands of its struct call, and a percentile. -/
def NodeRows : Prop := ∀ row ∈ rows, E.isNode row.1 = true

/-- The list of whole nodes that a collect makes of the rows. -/
def wholeList : V :=
  E.aggregate .collect
    (rows.map fun row => (some (E.apply nodeStructCall (row.1 :: row.2.1)), row.2.2))

/-- The list of their identities. -/
def identityList : V :=
  E.aggregate .collect (rows.map fun row => (some row.1, row.2.2))

/-- The two forms of one list. -/
def Twins (a b : Option V) : Prop :=
  ∃ rows, E.NodeRows rows ∧ a = some (E.wholeList rows) ∧ b = some (E.identityList rows)

/-- Scans and expansions give nodes, and the uses that the rewrite admits evaluate alike on the
two forms of a list. -/
structure Lawful : Prop where
  null_isNode : E.isNode E.null = true
  nodeScan_isNode : ∀ bound ty, (∀ x, bound = some x → E.isNode x = true) →
    ∀ x ∈ E.nodeScan bound ty, E.isNode x = true
  expand_isNode : ∀ src edge dst hop found, found ∈ E.expand src edge dst hop →
    ((∀ x, src = some x → E.isNode x = true) → E.isNode found.1 = true) ∧
    ((∀ x, dst = some x → E.isNode x = true) → E.isNode found.2.2 = true)
  size_alike : ∀ name rows, name.toLower = "size" → E.NodeRows rows →
    E.apply name [E.wholeList rows] = E.apply name [E.identityList rows]
  member_alike : ∀ x rows, E.isNode x = true → E.NodeRows rows →
    E.binary .isIn x (E.wholeList rows) = E.binary .isIn x (E.identityList rows)
  count_alike : ∀ args args' : List (Option V × Option V),
    Forall₂ (fun a b => (a.1 = b.1 ∨ E.Twins a.1 b.1) ∧ a.2 = b.2) args args' →
    E.aggregate .count args = E.aggregate .count args'

end Engine

/-! ## Scopes that agree -/

/-- Two scopes that differ at most in narrowed lists, and whose node variables hold nodes. -/
structure Env.Alike (E : Engine V) (d : Census) (env env' : Env V) : Prop where
  agree : ∀ v, env v = env' v ∨ d.Narrowed v ∧ E.Twins (env v) (env' v)
  nodes : ∀ v x, v ∉ d.mixed → env v = some x → E.isNode x = true

section Scopes

variable {E : Engine V} {d : Census} {env env' : Env V}
variable {v : VarId} {counting : Bool} {x : V}

namespace Env.Alike

/-- An environment whose unmixed variables are nodes is like itself. -/
lemma refl_of_nodes (h : ∀ v x, v ∉ d.mixed → env v = some x → E.isNode x = true) :
    env.Alike E d env :=
  ⟨fun _ => Or.inl rfl, h⟩

lemma empty : Env.Alike E d (Env.empty : Env V) Env.empty :=
  refl_of_nodes fun _ _ _ h => by cases h

section
variable (h : env.Alike E d env')
include h

/-- Alike environments agree on what is not narrowed. -/
lemma eq_of_not_narrowed (hv : ¬ d.Narrowed v) : env v = env' v :=
  (h.agree v).resolve_right fun hn => hv hn.1

/-- Alike environments agree on what is not mixed. -/
lemma eq_of_not_mixed (hv : v ∉ d.mixed) : env v = env' v :=
  h.eq_of_not_narrowed fun hn => hv (d.notNode_subset_mixed hn.notNode)

/-- An unmixed variable is a node or unbound. -/
lemma getD_isNode (hE : E.Lawful) (hv : v ∉ d.mixed) : E.isNode ((env v).getD E.null) = true := by
  cases hx : env v with
  | none => exact hE.null_isNode
  | some x => exact h.nodes v x hv hx

/-- Binding one value keeps them alike, if it is a node where one is expected. -/
lemma bind (hx : v ∉ d.mixed → E.isNode x = true) : (env.bind v x).Alike E d (env'.bind v x) := by
  constructor
  · intro w
    unfold Env.bind
    split
    · exact Or.inl rfl
    · exact h.agree w
  · intro w y hw hy
    unfold Env.bind at hy
    split at hy
    · rename_i hwv
      cases hy
      exact hx (hwv ▸ hw)
    · exact h.nodes w y hw hy

lemma bind_mixed (hv : v ∈ d.notNode) : (env.bind v x).Alike E d (env'.bind v x) :=
  h.bind fun hnot => absurd (d.notNode_subset_mixed hv) hnot

/-- One scope over two that agree. -/
lemma shadowing {inner : Env V} (hinner : ∀ v x, v ∉ d.mixed → inner v = some x → E.isNode x = true) :
    (inner.shadowing env).Alike E d (inner.shadowing env') := by
  constructor
  · intro v
    unfold Env.shadowing
    cases hx : inner v with
    | none => exact h.agree v
    | some x => exact Or.inl rfl
  · intro v y hv hy
    unfold Env.shadowing at hy
    cases hx : inner v with
    | none =>
      rw [hx, Option.none_or] at hy
      exact h.nodes v y hv hy
    | some x =>
      rw [hx, Option.some_or] at hy
      cases hy
      exact hinner v y hv hx

/-- Binding variables to null keeps them alike. -/
lemma bindNull (hE : E.Lawful) (vars : List VarId) :
    (env.bindNull E.null vars).Alike E d (env'.bindNull E.null vars) := by
  constructor
  · intro v
    unfold Env.bindNull
    rcases h.agree v with heq | ⟨hn, rows, hrows, ha, hb⟩
    · rw [heq]
      exact Or.inl rfl
    · rw [ha, hb]
      exact Or.inr ⟨hn, rows, hrows, rfl, rfl⟩
  · intro v y hv hy
    unfold Env.bindNull at hy
    cases hx : env v with
    | none =>
      rw [hx, Option.none_or] at hy
      split at hy
      · cases hy
        exact hE.null_isNode
      · cases hy
    | some x =>
      rw [hx, Option.some_or] at hy
      cases hy
      exact h.nodes v y hv hx

end

end Env.Alike

/-- A list of definitions keeps the node variables when each of them does. -/
lemma ofList_nodes {defs : List (Option VarId × V)}
    (h : ∀ v x, (some v, x) ∈ defs → v ∉ d.mixed → E.isNode x = true) :
    ∀ v x, v ∉ d.mixed → Env.ofList defs v = some x → E.isNode x = true := by
  induction defs with
  | nil =>
    intro v x _ hx
    cases hx
  | cons head defs ih =>
    intro v x hv hx
    obtain ⟨var, value⟩ := head
    unfold Env.ofList at hx
    rcases Option.or_eq_some_iff.mp hx with hx | ⟨_, hx⟩
    · exact ih (fun w y hw => h w y (mem_cons_of_mem _ hw)) v x hv hx
    · split at hx
      · rename_i hvar
        cases hx
        exact h v x (hvar ▸ mem_cons_self) hv
      · cases hx

/-! ## Expressions do not tell the scopes apart -/

section

open Census

/-- Membership in a list is the same for the list of nodes and that of identities. -/
lemma eval_membership (hE : E.Lawful) {op : BinaryOpKind} {left right : IrExpr}
    {pair : VarId × VarId} (hpair : membership? op left right = some pair)
    (hmem : pair ∈ d.memberships) (h : env.Alike E d env') :
    E.eval (.binaryOp op left right) env = E.eval (.binaryOp op left right) env' := by
  obtain ⟨rfl, rfl, rfl⟩ := membership?_eq_some hpair
  show E.binary .isIn ((env pair.1).getD E.null) ((env pair.2).getD E.null) =
    E.binary .isIn ((env' pair.1).getD E.null) ((env' pair.2).getD E.null)
  have hmember := h.eq_of_not_narrowed (not_narrowed_of_membership hmem)
  rcases h.agree pair.2 with hlist | ⟨hn, rows, hrows, ha, hb⟩
  · rw [hmember, hlist]
  · have hnode := h.getD_isNode hE (hn.member hmem)
    rw [← hmember, ha, hb]
    exact hE.member_alike _ rows hnode hrows

/-- The size is the same for the list of nodes and that of identities. -/
lemma eval_size (hE : E.Lawful) {name : String} {args : List IrExpr}
    (hsize : sizeOf? name args = some v) (h : env.Alike E d env') :
    E.eval (.functionCall name args) env = E.eval (.functionCall name args) env' := by
  obtain ⟨hname, rfl⟩ := sizeOf?_eq_some hsize
  show E.apply name [(env v).getD E.null] = E.apply name [(env' v).getD E.null]
  rcases h.agree v with hlist | ⟨_, rows, hrows, ha, hb⟩
  · rw [hlist]
  · rw [ha, hb]
    exact hE.size_alike name rows hname hrows

mutual

/-- An expression that the census has walked has one value in two scopes that agree. -/
theorem eval_eq (hE : E.Lawful) : ∀ (e : IrExpr) (counting : Bool) {env env' : Env V},
    (walkExpr counting e).Within d → env.Alike E d env' → E.eval e env = E.eval e env'
  | .literal _, _, _, _, _, _ => rfl
  | .parameter _, _, _, _, _, _ => rfl
  | .varRef v, _, _, _, hw, h => by
    have hread : v ∈ d.read := hw.read mem_cons_self
    show (_ : Option V).getD E.null = (_ : Option V).getD E.null
    rw [h.eq_of_not_narrowed fun hn => hn.unread (mem_append_left _ hread)]
  | .propertyAccess base prop, counting, env, env', hw, h => by
    show E.property (E.eval base env) prop = E.property (E.eval base env') prop
    rw [eval_eq hE base counting hw h]
  | .binaryOp op left right, counting, env, env', hw, h => by
    unfold walkExpr at hw
    split at hw
    · rename_i pair hpair
      exact eval_membership hE hpair (hw.memberships mem_cons_self) h
    · rw [within_append] at hw
      show E.binary op (E.eval left env) (E.eval right env) =
        E.binary op (E.eval left env') (E.eval right env')
      rw [eval_eq hE left _ hw.1 h, eval_eq hE right _ hw.2 h]
  | .unaryOp op expr, counting, env, env', hw, h => by
    show E.unary op (E.eval expr env) = E.unary op (E.eval expr env')
    rw [eval_eq hE expr counting hw h]
  | .functionCall name args, counting, env, env', hw, h => by
    unfold walkExpr at hw
    split at hw
    · rename_i v hsize
      exact eval_size hE hsize h
    · show E.apply name (E.evalList args env) = E.apply name (E.evalList args env')
      rw [evalList_eq hE args _ hw h]
  | .caseOf operand arms elseExpr, counting, env, env', hw, h => by
    unfold walkExpr at hw
    rw [within_append, within_append] at hw
    show E.caseOf (E.evalOption operand env) (E.evalArms arms env) (E.evalOption elseExpr env) =
      E.caseOf (E.evalOption operand env') (E.evalArms arms env') (E.evalOption elseExpr env')
    rw [evalOption_eq hE operand counting hw.1.1 h, evalOption_eq hE elseExpr counting hw.1.2 h,
      evalArms_eq hE arms counting hw.2 h]
  | .listLiteral items, counting, env, env', hw, h => by
    show E.list (E.evalList items env) = E.list (E.evalList items env')
    rw [evalList_eq hE items counting hw h]
  | .mapLiteral entries, counting, env, env', hw, h => by
    show E.map (E.evalEntries entries env) = E.map (E.evalEntries entries env')
    rw [evalEntries_eq hE entries counting hw h]
  | .quantifier kind loopVar list predicate, counting, env, env', hw, h => by
    unfold walkExpr at hw
    rw [within_append, within_append] at hw
    have hloop : loopVar ∈ d.notNode := hw.1.1.notNode mem_cons_self
    show E.quantify kind (E.eval list env) (fun x => E.eval predicate (env.bind loopVar x)) =
      E.quantify kind (E.eval list env') (fun x => E.eval predicate (env'.bind loopVar x))
    rw [eval_eq hE list counting hw.1.2 h]
    congr 1
    funext x
    exact eval_eq hE predicate counting hw.2 (h.bind_mixed hloop)
  | .listComprehension loopVar list filter projection, counting, env, env', hw, h => by
    unfold walkExpr at hw
    rw [within_append, within_append, within_append] at hw
    have hloop : loopVar ∈ d.notNode := hw.1.1.1.notNode mem_cons_self
    show E.comprehend (E.eval list env) (E.evalClause filter loopVar env)
        (E.evalClause projection loopVar env) =
      E.comprehend (E.eval list env') (E.evalClause filter loopVar env')
        (E.evalClause projection loopVar env')
    rw [eval_eq hE list counting hw.1.1.2 h, evalClause_eq hE filter counting hw.1.2 hloop h,
      evalClause_eq hE projection counting hw.2 hloop h]

/-- Expressions one after the other. -/
theorem evalList_eq (hE : E.Lawful) : ∀ (es : List IrExpr) (counting : Bool) {env env' : Env V},
    (walkExprs counting es).Within d → env.Alike E d env' → E.evalList es env = E.evalList es env'
  | [], _, _, _, _, _ => rfl
  | e :: es, counting, env, env', hw, h => by
    unfold walkExprs at hw
    rw [within_append] at hw
    show E.eval e env :: E.evalList es env = E.eval e env' :: E.evalList es env'
    rw [eval_eq hE e counting hw.1 h, evalList_eq hE es counting hw.2 h]

/-- The arms of a `CASE`. -/
theorem evalArms_eq (hE : E.Lawful) : ∀ (arms : List (IrExpr × IrExpr)) (counting : Bool)
    {env env' : Env V}, (walkArms counting arms).Within d → env.Alike E d env' →
    E.evalArms arms env = E.evalArms arms env'
  | [], _, _, _, _, _ => rfl
  | (condition, result) :: arms, counting, env, env', hw, h => by
    unfold walkArms at hw
    rw [within_append, within_append] at hw
    show (E.eval condition env, E.eval result env) :: E.evalArms arms env =
      (E.eval condition env', E.eval result env') :: E.evalArms arms env'
    rw [eval_eq hE condition counting hw.1.1 h, eval_eq hE result counting hw.1.2 h,
      evalArms_eq hE arms counting hw.2 h]

/-- The entries of a map. -/
theorem evalEntries_eq (hE : E.Lawful) : ∀ (entries : List (String × IrExpr)) (counting : Bool)
    {env env' : Env V}, (walkEntries counting entries).Within d → env.Alike E d env' →
    E.evalEntries entries env = E.evalEntries entries env'
  | [], _, _, _, _, _ => rfl
  | (key, e) :: entries, counting, env, env', hw, h => by
    unfold walkEntries at hw
    rw [within_append] at hw
    show (key, E.eval e env) :: E.evalEntries entries env =
      (key, E.eval e env') :: E.evalEntries entries env'
    rw [eval_eq hE e counting hw.1 h, evalEntries_eq hE entries counting hw.2 h]

/-- An optional expression. -/
theorem evalOption_eq (hE : E.Lawful) : ∀ (e : Option IrExpr) (counting : Bool)
    {env env' : Env V}, (walkOption counting e).Within d → env.Alike E d env' →
    E.evalOption e env = E.evalOption e env'
  | none, _, _, _, _, _ => rfl
  | some e, counting, env, env', hw, h => by
    show some (E.eval e env) = some (E.eval e env')
    rw [eval_eq hE e counting hw h]

/-- A clause of a comprehension, for each element. -/
theorem evalClause_eq (hE : E.Lawful) : ∀ (e : Option IrExpr) (counting : Bool) {loopVar : VarId}
    {env env' : Env V}, (walkOption counting e).Within d → loopVar ∈ d.notNode →
    env.Alike E d env' → E.evalClause e loopVar env = E.evalClause e loopVar env'
  | none, _, _, _, _, _, _, _ => rfl
  | some e, counting, loopVar, env, env', hw, hloop, h => by
    show some (fun x => E.eval e (env.bind loopVar x)) =
      some (fun x => E.eval e (env'.bind loopVar x))
    congr 1
    funext x
    exact eval_eq hE e counting hw (h.bind_mixed hloop)

end

end

end Scopes

/-! ## Rows that agree -/

/-- Two rows whose scopes agree; while `clean`, their columns are equal. -/
structure Row.Alike (E : Engine V) (d : Census) (clean : Prop) (row row' : Row V) : Prop where
  env : row.env.Alike E d row'.env
  columns : clean → row.columns = row'.columns

/-- Rows that agree one by one. -/
abbrev RowsAlike (E : Engine V) (d : Census) (clean : Prop) : List (Row V) → List (Row V) → Prop :=
  Forall₂ (Row.Alike E d clean)

/-- The operators that replace the columns of a row. -/
def GraphOp.projects : GraphOp → Bool
  | .project _ _ | .withScope _ _ _ | .aggregate _ _ _ _ | .union _ _ => true
  | _ => false

section Rows

open Census

variable {E : Engine V} {d : Census} {clean : Prop} {row row' : Row V} {rows rows' : List (Row V)}
variable {v : VarId} {counting : Bool} {items : List ProjectItem} {agg : AggExpr}

namespace Row.Alike

section
variable (h : row.Alike E d clean row')
include h

lemma mono {clean' : Prop} (hclean : clean' → clean) : row.Alike E d clean' row' :=
  ⟨h.env, fun hc => h.columns (hclean hc)⟩

/-- The rows that a subplan starts from are alike and clean. -/
lemma seed : row.seed.Alike E d True row'.seed :=
  ⟨h.env, fun _ => rfl⟩

/-- Binding one value in both rows. -/
lemma bind {x : V} (hx : v ∉ d.mixed → E.isNode x = true) :
    (row.bind v x).Alike E d clean (row'.bind v x) :=
  ⟨h.env.bind hx, h.columns⟩

lemma bind_mixed {x : V} (hv : v ∈ d.notNode) : (row.bind v x).Alike E d clean (row'.bind v x) :=
  ⟨h.env.bind_mixed hv, h.columns⟩

end

end Row.Alike

/-- The same positions of alike rows. -/
lemma forall₂_pick (h : RowsAlike E d clean rows rows') (positions : List ℕ) :
    RowsAlike E d clean (pick positions rows) (pick positions rows') :=
  h.filterMap_getElem? positions

/-- Alike rows stay alike under filters that do not tell them apart. -/
lemma forall₂_filter {p p' : Row V → Bool} (h : RowsAlike E d clean rows rows')
    (hp : ∀ row row', row.Alike E d clean row' → p row = p' row') :
    RowsAlike E d clean (rows.filter p) (rows'.filter p') := by
  apply rel_filter _ h
  intro row row' hrow
  show p row = true ↔ p' row' = true
  rw [hp row row' hrow]

/-- Clean rows have the same distinct ones. -/
lemma forall₂_distinctRows (h : RowsAlike E d True rows rows') (distinct : Bool) :
    RowsAlike E d True (E.distinctRows distinct rows) (E.distinctRows distinct rows') := by
  unfold Engine.distinctRows
  split
  · have hcolumns : rows.map (fun row => row.columns.map (·.2)) =
        rows'.map (fun row => row.columns.map (·.2)) :=
      h.map_eq_map fun row row' hrow => by rw [hrow.columns trivial]
    rw [hcolumns]
    exact forall₂_pick h _
  · exact h

/-- Rows bound to what the engine finds for each of them. -/
lemma forall₂_bindAll {α : Type} {found : Row V → List α} {extend : Row V → α → Row V}
    (h : RowsAlike E d clean rows rows')
    (hfound : ∀ row row', row.Alike E d clean row' → found row = found row')
    (hextend : ∀ row row', row.Alike E d clean row' → ∀ x ∈ found row,
      (extend row x).Alike E d clean (extend row' x)) :
    RowsAlike E d clean (rows.flatMap fun row => (found row).map (extend row))
      (rows'.flatMap fun row => (found row).map (extend row)) := by
  apply rel_flatMap h
  intro row row' hrow
  show Forall₂ _ ((found row).map (extend row)) ((found row').map (extend row'))
  rw [← hfound row row' hrow, forall₂_map_left_iff, forall₂_map_right_iff, forall₂_same]
  exact hextend row row' hrow

/-! ### Projections -/

/-- A variable that is defined as a node is one. -/
lemma defineAs_isNode (hE : E.Lawful) {out : VarId} {e : IrExpr}
    (hw : (defineAs (some out) e).Within d) {env env' : Env V} (h : env.Alike E d env')
    (hout : out ∉ d.mixed) : E.isNode (E.eval e env) = true := by
  cases e with
  | varRef source =>
    apply h.getD_isNode hE
    exact fun hsource => hout ((spread_closed _).2 _ (hw.passThrough mem_cons_self) hsource)
  | _ => exact absurd (d.notNode_subset_mixed (hw.notNode mem_cons_self)) hout

/-- What a projection reads covers what its items read. -/
lemma within_item (hw : (walkItems counting items).Within d) {item : ProjectItem}
    (hitem : item ∈ items) :
    (walkExpr counting item.expr).Within d ∧ (defineAs item.outVar item.expr).Within d := by
  induction items with
  | nil => cases hitem
  | cons head items ih =>
    unfold walkItems at hw
    rw [within_append, within_append] at hw
    rcases mem_cons.mp hitem with rfl | hitem
    · exact hw.1
    · exact ih hw.2 hitem

section
variable {counting : Bool} {items : List ProjectItem} (hE : E.Lawful)
  (hw : (walkItems counting items).Within d)
include hE hw

section
variable (h : row.env.Alike E d row'.env)
include h

/-- A projection makes two rows that agree equal. -/
lemma projectRow_eq : E.projectRow items row = E.projectRow items row' := by
  have hvalue : ∀ item ∈ items, E.eval item.expr row.env = E.eval item.expr row'.env :=
    fun item hitem => eval_eq hE _ counting (within_item hw hitem).1 h
  unfold Engine.projectRow
  congr 1
  · exact congrArg Env.ofList (map_congr_left fun item hitem => by rw [hvalue item hitem])
  · exact map_congr_left fun item hitem => by rw [hvalue item hitem]

/-- A projected row holds nodes where they are expected. -/
lemma projectRow_nodes :
    ∀ v x, v ∉ d.mixed → (E.projectRow items row).env v = some x → E.isNode x = true := by
  apply ofList_nodes
  intro v x hdef hv
  obtain ⟨item, hitem, hpair⟩ := mem_map.mp hdef
  have hout : item.outVar = some v := congrArg Prod.fst hpair
  have hx : E.eval item.expr row.env = x := congrArg Prod.snd hpair
  rw [← hx]
  exact defineAs_isNode hE (hout ▸ (within_item hw hitem).2) h hv

/-- Alike rows have alike and clean projections. -/
lemma projectRow_alike : (E.projectRow items row).Alike E d True (E.projectRow items row') := by
  rw [← projectRow_eq hE hw h]
  exact ⟨Env.Alike.refl_of_nodes (projectRow_nodes hE hw h), fun _ => rfl⟩

end

/-- The predicate of a projection does not tell alike rows apart. -/
lemma keepsRow_eq {predicate : Option IrExpr} (hp : (walkOption counting predicate).Within d)
    (h : row.env.Alike E d row'.env) :
    E.keepsRow items predicate row = E.keepsRow items predicate row' := by
  cases predicate with
  | none => rfl
  | some predicate =>
    show E.isTrue (E.eval predicate ((E.projectRow items row).env.shadowing row.env)) =
      E.isTrue (E.eval predicate ((E.projectRow items row').env.shadowing row'.env))
    rw [← projectRow_eq hE hw h]
    rw [eval_eq hE predicate counting hp (h.shadowing (projectRow_nodes hE hw h))]

end

/-! ### Aggregations -/

/-- What an aggregation reads covers what its aggregates read. -/
lemma within_agg {aggs : List AggExpr} (hw : (walkAggs counting aggs).Within d) (hagg : agg ∈ aggs) :
    (∀ v, agg.outVar = some v → v ∈ d.notNode) ∧ (walkArg counting agg).Within d ∧
      (walkOption counting agg.percentile).Within d := by
  induction aggs with
  | nil => cases hagg
  | cons head aggs ih =>
    unfold walkAggs at hw
    rw [within_append, within_append, within_append] at hw
    rcases mem_cons.mp hagg with rfl | hagg
    · refine ⟨?_, hw.1.1.2, hw.1.2⟩
      intro v hv
      apply hw.1.1.1.notNode
      show v ∈ agg.outVar.toList
      rw [hv]
      exact mem_cons_self
    · exact ih hw.2 hagg

/-- The value of an aggregate is the same over two groups of rows that agree. -/
lemma aggregateValue_eq (hE : E.Lawful) (harg : (walkArg counting agg).Within d)
    (hper : (walkOption counting agg.percentile).Within d)
    (h : RowsAlike E d clean rows rows') :
    E.aggregateValue rows agg = E.aggregateValue rows' agg := by
  have hpercentile : ∀ row row' : Row V, row.Alike E d clean row' →
      E.evalOption agg.percentile row.env = E.evalOption agg.percentile row'.env :=
    fun row row' hrow => evalOption_eq hE _ counting hper hrow.env
  unfold Engine.aggregateValue
  unfold walkArg at harg
  split at harg
  · rename_i v hfunc hvar
    -- `count(v)` of a list: the rows may hold the two forms of it
    rw [hfunc, hvar]
    apply hE.count_alike
    rw [forall₂_map_left_iff, forall₂_map_right_iff]
    apply h.imp
    intro row row' hrow
    refine ⟨?_, hpercentile row row' hrow⟩
    show some ((row.env v).getD E.null) = some ((row'.env v).getD E.null) ∨ _
    rcases hrow.env.agree v with heq | ⟨_, members, hmembers, ha, hb⟩
    · exact Or.inl (by rw [heq])
    · refine Or.inr ⟨members, hmembers, ?_, ?_⟩
      · show some ((row.env v).getD E.null) = _
        rw [ha]; rfl
      · show some ((row'.env v).getD E.null) = _
        rw [hb]; rfl
  · congr 1
    apply h.map_eq_map
    intro row row' hrow
    rw [hpercentile row row' hrow, evalOption_eq hE agg.arg _ harg hrow.env]

/-- What a narrowed aggregate looks like. -/
lemma narrowedTo_eq_some {c : Census} {n : VarId} (h : narrowedTo c agg = some n) :
    ∃ l rest, agg.func = .collect ∧ agg.outVar = some l ∧
      agg.arg = some (.functionCall nodeStructCall (.varRef n :: rest)) ∧
      c.qualifies l n = true := by
  unfold narrowedTo at h
  split at h
  · rename_i l n' hfunc hout harg
    split at h
    · rename_i hq
      cases h
      obtain ⟨e, he, hop⟩ := Option.bind_eq_some_iff.mp harg
      unfold nodeStructOperand at hop
      split at hop
      · rename_i name v rest
        split at hop
        · rename_i hname
          cases hop
          exact ⟨l, rest, hfunc, hout, by rw [he, hname], hq⟩
        · cases hop
      · cases hop
    · cases h
  · cases h

/-- A narrowed aggregate has the same value, or gives the other form of a narrowed list. -/
lemma aggregateValue_narrowAgg (hE : E.Lawful) (hout : ∀ v, agg.outVar = some v → v ∈ d.notNode)
    (harg : (walkArg counting agg).Within d) (hper : (walkOption counting agg.percentile).Within d)
    (h : RowsAlike E d clean rows rows') :
    E.aggregateValue rows agg = E.aggregateValue rows' (narrowAgg d.settle agg) ∨
      ∃ v, agg.outVar = some v ∧ d.Narrowed v ∧ E.Twins (some (E.aggregateValue rows agg))
          (some (E.aggregateValue rows' (narrowAgg d.settle agg))) := by
  cases hto : narrowedTo d.settle agg with
  | none =>
    left
    unfold narrowAgg
    rw [hto]
    exact aggregateValue_eq hE harg hper h
  | some n =>
    obtain ⟨l, rest, hfunc, hl, hstruct, hq⟩ := narrowedTo_eq_some hto
    have hnarrowed := qualifies_iff.mp hq
    refine Or.inr ⟨l, hl, ⟨hout l hl, hnarrowed.2.1, hnarrowed.2.2.1⟩, ?_⟩
    have hn : n ∉ d.mixed := nodeOnly_not_mixed hnarrowed.2.2.2.2
    have hnarrow : narrowAgg d.settle agg = { agg with arg := some (.varRef n) } := by
      unfold narrowAgg
      rw [hto]
    -- the rows of the group, as the node, the other operands and the percentile
    refine ⟨rows.map fun row => ((row.env n).getD E.null, E.evalList rest row.env,
      E.evalOption agg.percentile row.env), ?_, ?_, ?_⟩
    · intro member hmember
      obtain ⟨row, hrow, rfl⟩ := mem_map.mp hmember
      obtain ⟨row', _, hrow⟩ := h.exists_of_mem_left hrow
      exact hrow.env.getD_isNode hE hn
    · unfold Engine.aggregateValue Engine.wholeList
      rw [hfunc, hstruct, map_map]
      rfl
    · rw [hnarrow]
      unfold Engine.aggregateValue Engine.identityList
      show some (E.aggregate agg.func _) = _
      rw [hfunc, map_map]
      congr 2
      symm
      apply h.map_eq_map
      intro row row' hrow
      show (some ((row.env n).getD E.null), E.evalOption agg.percentile row.env) =
        (some ((row'.env n).getD E.null), E.evalOption agg.percentile row'.env)
      rw [hrow.env.eq_of_not_mixed hn, evalOption_eq hE _ counting hper hrow.env]

lemma within_groupKeys {groupBy : List IrExpr} {groupVars : List (Option VarId)}
    (hw : (walkGroupKeys counting groupBy groupVars).Within d) :
    (walkExprs counting groupBy).Within d := by
  induction groupBy generalizing groupVars with
  | nil => exact hw
  | cons key keys ih =>
    unfold walkExprs
    rw [within_append]
    cases groupVars with
    | nil =>
      unfold walkGroupKeys at hw
      rw [within_append] at hw
      exact ⟨hw.1, ih hw.2⟩
    | cons out outs =>
      unfold walkGroupKeys at hw
      rw [within_append, within_append] at hw
      exact ⟨hw.1.1, ih hw.2⟩

/-- A group key that is expected to be a node is one. -/
lemma groupKeys_nodes (hE : E.Lawful) {groupBy : List IrExpr} {groupVars : List (Option VarId)}
    (hw : (walkGroupKeys counting groupBy groupVars).Within d) {env env' : Env V}
    (h : env.Alike E d env') {x : V} (hdef : (some v, x) ∈ groupVars.zip (E.evalList groupBy env))
    (hv : v ∉ d.mixed) : E.isNode x = true := by
  induction groupBy generalizing groupVars with
  | nil =>
    rw [show E.evalList [] env = [] from rfl, zip_nil_right] at hdef
    cases hdef
  | cons key keys ih =>
    cases groupVars with
    | nil => cases hdef
    | cons out outs =>
      unfold walkGroupKeys at hw
      rw [within_append, within_append] at hw
      rcases mem_cons.mp hdef with hhead | hdef
      · cases hhead
        exact defineAs_isNode hE hw.1.2 h hv
      · exact ih hw.2 hdef

/-- Alike rows have the same group keys. -/
lemma groupKeys_eq (hE : E.Lawful) {groupBy : List IrExpr}
    (hw : (walkExprs counting groupBy).Within d) (h : RowsAlike E d clean rows rows') :
    E.groupKeys groupBy rows = E.groupKeys groupBy rows' := by
  cases h with
  | nil => rfl
  | cons hrow _ => exact evalList_eq hE groupBy counting hw hrow.env

/-- Definitions that give the same value, or the two forms of a narrowed list. -/
lemma ofList_alike {defs defs' : List (Option VarId × V)}
    (h : Forall₂ (fun p p' => p.1 = p'.1 ∧ (p.2 = p'.2 ∨
      ∃ v, p.1 = some v ∧ d.Narrowed v ∧ E.Twins (some p.2) (some p'.2))) defs defs')
    (hnodes : ∀ v x, (some v, x) ∈ defs → v ∉ d.mixed → E.isNode x = true) :
    (Env.ofList defs).Alike E d (Env.ofList defs') := by
  refine ⟨?_, ofList_nodes hnodes⟩
  clear hnodes
  intro v
  induction h with
  | nil => exact Or.inl rfl
  | @cons p p' defs defs' hp _ ih =>
    unfold Env.ofList
    rcases ih with heq | ⟨hn, members, hmembers, ha, hb⟩
    · rw [heq, hp.1]
      cases Env.ofList defs' v with
      | some x => exact Or.inl rfl
      | none =>
        split
        · rename_i hvar
          rcases hp.2 with hvalue | ⟨w, hw, hn, htwins⟩
          · exact Or.inl (congrArg some hvalue)
          · have hwv : w = v := Option.some.inj (hw.symm.trans (hp.1.trans hvar))
            exact Or.inr ⟨hwv ▸ hn, htwins⟩
        · exact Or.inl rfl
    · -- a later definition gives both forms
      rw [ha, hb]
      exact Or.inr ⟨hn, members, hmembers, rfl, rfl⟩

section Groups

variable {counting : Bool} {groupBy : List IrExpr} {groupAliases : List (Option String)}
  {groupVars : List (Option VarId)} {aggs : List AggExpr}

section
variable (hE : E.Lawful) (hk : (walkGroupKeys counting groupBy groupVars).Within d)
  (ha : (walkAggs counting aggs).Within d) (h : RowsAlike E d clean rows rows')
include hE hk ha h

/-- The group's definitions put nodes where nodes are expected. -/
lemma groupRow_nodes {x : V} (hdef : (some v, x) ∈ groupVars.zip (E.groupKeys groupBy rows) ++
      aggs.map fun agg => (agg.outVar, E.aggregateValue rows agg)) (hv : v ∉ d.mixed) :
    E.isNode x = true := by
  rcases mem_append.mp hdef with hkey | hagg
  · cases h with
    | nil =>
      rw [show E.groupKeys groupBy [] = [] from rfl, zip_nil_right] at hkey
      cases hkey
    | cons hrow _ => exact groupKeys_nodes hE hk hrow.env hkey hv
  · obtain ⟨agg, hmem, hpair⟩ := mem_map.mp hagg
    have hout := (within_agg ha hmem).1 v (congrArg Prod.fst hpair)
    exact absurd (d.notNode_subset_mixed hout) hv

/-- Narrowed or not, an aggregation makes rows that agree. -/
lemma groupRow_narrow : (E.groupRow groupBy groupAliases groupVars aggs rows).Alike E d False
      (E.groupRow groupBy groupAliases groupVars (aggs.map (narrowAgg d.settle)) rows') := by
  refine ⟨?_, False.elim⟩
  apply ofList_alike
  · apply rel_append
    · rw [← groupKeys_eq hE (within_groupKeys hk) h, forall₂_same]
      exact fun _ _ => ⟨rfl, Or.inl rfl⟩
    · rw [map_map, forall₂_map_left_iff, forall₂_map_right_iff, forall₂_same]
      intro agg hagg
      have hwithin := within_agg ha hagg
      have hvar : (narrowAgg d.settle agg).outVar = agg.outVar := by
        unfold narrowAgg
        split <;> rfl
      refine ⟨hvar.symm, ?_⟩
      exact aggregateValue_narrowAgg hE hwithin.1 hwithin.2.1 hwithin.2.2 h
  · intro v x
    exact groupRow_nodes hE hk ha h

/-- The rows of a group give alike and clean rows. -/
lemma groupRow_alike : (E.groupRow groupBy groupAliases groupVars aggs rows).Alike E d True
      (E.groupRow groupBy groupAliases groupVars aggs rows') := by
  have hkeys := groupKeys_eq hE (within_groupKeys hk) h
  have hvalue : ∀ agg ∈ aggs, E.aggregateValue rows agg = E.aggregateValue rows' agg := by
    intro agg hagg
    have hwithin := within_agg ha hagg
    exact aggregateValue_eq hE hwithin.2.1 hwithin.2.2 h
  have hsame : E.groupRow groupBy groupAliases groupVars aggs rows =
      E.groupRow groupBy groupAliases groupVars aggs rows' := by
    unfold Engine.groupRow
    rw [hkeys]
    congr 1
    · congr 2
      exact map_congr_left fun agg hagg => by rw [hvalue agg hagg]
    · congr 1
      exact map_congr_left fun agg hagg => by rw [hvalue agg hagg]
  rw [← hsame]
  exact ⟨Env.Alike.refl_of_nodes (ofList_nodes fun v x => groupRow_nodes hE hk ha h), fun _ => rfl⟩

omit ha in
/-- Rows that agree fall into the same groups. -/
lemma runOp_aggregate {clean' : Prop} {aggs' : List AggExpr}
    (hgroup : ∀ {rows rows'}, RowsAlike E d clean rows rows' →
      (E.groupRow groupBy groupAliases groupVars aggs rows).Alike E d clean'
        (E.groupRow groupBy groupAliases groupVars aggs' rows')) :
    RowsAlike E d clean' (E.runOp (.aggregate groupBy groupAliases groupVars aggs) rows)
      (E.runOp (.aggregate groupBy groupAliases groupVars aggs') rows') := by
  have hkeys : rows.map (fun row => E.evalList groupBy row.env) =
      rows'.map (fun row => E.evalList groupBy row.env) :=
    h.map_eq_map fun _ _ hrow => evalList_eq hE groupBy counting (within_groupKeys hk) hrow.env
  show Forall₂ _ (List.map _ (E.groups _ _)) (List.map _ (E.groups _ _))
  rw [hkeys, forall₂_map_left_iff, forall₂_map_right_iff, forall₂_same]
  exact fun group _ => hgroup (forall₂_pick h group)

/-- A narrowed aggregation keeps the scopes in agreement. -/
lemma runOp_narrowOp :
    RowsAlike E d False (E.runOp (.aggregate groupBy groupAliases groupVars aggs) rows)
      (E.runOp (narrowOp d.settle (.aggregate groupBy groupAliases groupVars aggs)) rows') :=
  runOp_aggregate hE hk h (groupRow_narrow hE hk ha)

end

end Groups

/-! ## Pipelines keep the agreement -/

/-- An optional match of alike rows. -/
lemma optionalRows_alike (hE : E.Lawful) {found found' : List (Row V)} (binders : List VarId)
    (hrow : row.Alike E d clean row') (h : RowsAlike E d True found found') :
    RowsAlike E d clean (E.optionalRows binders row found)
      (E.optionalRows binders row' found') := by
  cases h with
  | nil => exact Forall₂.cons ⟨hrow.env.bindNull hE _, hrow.columns⟩ Forall₂.nil
  | cons hhead htail =>
    refine Forall₂.cons ⟨hhead.env, hrow.columns⟩ ?_
    exact rel_map (fun _ _ h => ⟨h.env, hrow.columns⟩) htail

/-- Clean rows have the same values of a pattern. -/
lemma patternValues_eq {found found' : List (Row V)}
    (h : RowsAlike E d True found found') :
    found.filterMap Row.patternValue? = found'.filterMap Row.patternValue? := by
  induction h with
  | nil => rfl
  | cons hhead _ ih =>
    have hvalue : Row.patternValue? _ = Row.patternValue? _ :=
      congrArg (List.lookup (some Row.patternValueName)) (hhead.columns trivial)
    rw [filterMap_cons, filterMap_cons, hvalue, ih]

/-- After a projection the rows are clean. -/
lemma runOp_projects (hE : E.Lawful) {op : GraphOp} (hp : op.projects = true)
    (hw : (walkOp counting op).Within d) (h : RowsAlike E d clean rows rows') {clean' : Prop} :
    RowsAlike E d clean' (E.runOp op rows) (E.runOp op rows') := by
  refine Forall₂.imp (fun _ _ hrow => hrow.mono fun _ => trivial) (R := Row.Alike E d True) ?_
  cases op with
  | project items distinct =>
    apply forall₂_distinctRows
    exact rel_map (fun _ _ hrow => projectRow_alike hE hw hrow.env) h
  | withScope items distinct predicate =>
    unfold walkOp at hw
    rw [within_append] at hw
    apply forall₂_distinctRows
    have hkept := forall₂_filter h fun row row' hrow => keepsRow_eq hE hw.1 hw.2 hrow.env
    exact rel_map (fun _ _ hrow => projectRow_alike hE hw.1 hrow.env) hkept
  | aggregate groupBy groupAliases groupVars aggs =>
    unfold walkOp at hw
    rw [within_append] at hw
    exact runOp_aggregate hE hw.1 h (groupRow_alike hE hw.1 hw.2)
  | union all inputs =>
    apply forall₂_distinctRows
    show Forall₂ _ _ _
    rw [forall₂_map_left_iff, forall₂_map_right_iff, forall₂_same]
    exact fun _ _ => ⟨Env.Alike.empty, fun _ => rfl⟩
  | _ => cases hp

/-- A variable that an operator names is bound alike in both rows. -/
lemma bound_eq (h : row.Alike E d clean row') (hv : v ∈ d.claimed) : row.env v = row'.env v :=
  h.env.eq_of_not_narrowed fun hn => hn.unclaimed hv

/-- A scan binds alike rows to the same nodes. -/
lemma scan_alike (h : RowsAlike E d clean rows rows') (hv : v ∈ d.claimed)
    (find : Option V → List V)
    (hfind : v ∉ d.mixed → ∀ bound, (∀ x, bound = some x → E.isNode x = true) →
      ∀ x ∈ find bound, E.isNode x = true) :
    RowsAlike E d clean
      (rows.flatMap fun row => (find (row.env v)).map (row.bind v))
      (rows'.flatMap fun row => (find (row.env v)).map (row.bind v)) := by
  apply forall₂_bindAll h
  · intro row row' hrow
    rw [bound_eq hrow hv]
  · intro row row' hrow x hx
    apply hrow.bind
    intro hmixed
    exact hfind hmixed (row.env v) (fun y hy => hrow.env.nodes v y hmixed hy) x hx

/-- An expansion binds alike rows to the same relationships and nodes. -/
lemma expand_alike (hE : E.Lawful) {src edge dst : VarId} (hop : Hop)
    (hsrc : src ∈ d.claimed) (hdst : dst ∈ d.claimed) (hedge : edge ∈ d.claimed)
    (hedge' : edge ∈ d.notNode) (h : RowsAlike E d clean rows rows') :
    RowsAlike E d clean (E.runOp (.expand src edge dst hop) rows)
      (E.runOp (.expand src edge dst hop) rows') := by
  apply forall₂_bindAll h
  · intro row row' hrow
    rw [bound_eq hrow hsrc, bound_eq hrow hdst, bound_eq hrow hedge]
  · intro row row' hrow found hfound
    have hnode := hE.expand_isNode _ _ _ hop found hfound
    apply Row.Alike.bind
    · apply Row.Alike.bind (hrow.bind_mixed hedge')
      exact fun hmixed => hnode.1 fun x hx => hrow.env.nodes src x hmixed hx
    · exact fun hmixed => hnode.2 fun x hx => hrow.env.nodes dst x hmixed hx

/-- The check on repeated relationships does not tell alike rows apart. -/
lemma unique_alike {edge : VarId} {priorEdges : List VarId} (hedge : edge ∈ d.claimed)
    (hprior : priorEdges ⊆ d.claimed) (h : RowsAlike E d clean rows rows') :
    RowsAlike E d clean (E.runOp (.relationshipUnique edge priorEdges) rows)
      (E.runOp (.relationshipUnique edge priorEdges) rows') := by
  apply forall₂_filter h
  intro row row' hrow
  have hpriors : priorEdges.map row.env = priorEdges.map row'.env :=
    map_congr_left fun v hv => bound_eq hrow (hprior hv)
  rw [bound_eq hrow hedge, hpriors]

/-- A procedure is called with the same arguments. -/
lemma call_alike (hE : E.Lawful) {procedure : String} {args : List IrExpr} {yields : List VarId}
    (hargs : (walkExprs counting args).Within d) (hyields : yields ⊆ d.notNode)
    (h : RowsAlike E d clean rows rows') :
    RowsAlike E d clean (E.runOp (.call procedure args yields) rows)
      (E.runOp (.call procedure args yields) rows') := by
  apply forall₂_bindAll h
  · intro row row' hrow
    rw [evalList_eq hE args counting hargs hrow.env]
  · intro row row' hrow values _
    refine ⟨hrow.env.shadowing (ofList_nodes ?_), hrow.columns⟩
    intro v x hdef hv
    obtain ⟨w, hw, hwv⟩ := mem_map.mp (of_mem_zip hdef).1
    cases hwv
    exact absurd (d.notNode_subset_mixed (hyields hw)) hv

/-- Alike rows are sorted alike. -/
lemma sort_alike (hE : E.Lawful) {keys : List SortKey} (hw : (walkOp counting (.sort keys)).Within d)
    (h : RowsAlike E d clean rows rows') :
    RowsAlike E d clean (E.runOp (.sort keys) rows) (E.runOp (.sort keys) rows') := by
  have hkeys : rows.map (fun row => E.evalList (keys.map (·.expr)) row.env) =
      rows'.map (fun row => E.evalList (keys.map (·.expr)) row.env) :=
    h.map_eq_map fun _ _ hrow => evalList_eq hE _ counting hw hrow.env
  show Forall₂ _ (pick (E.sorted _ (rows.map _)) rows) (pick (E.sorted _ (rows'.map _)) rows')
  rw [hkeys]
  exact forall₂_pick h _

/-- The same list is unwound. -/
lemma unwind_alike (hE : E.Lawful) {listExpr : IrExpr} {element : VarId}
    (hw : (walkOp counting (.unwind listExpr element)).Within d)
    (h : RowsAlike E d clean rows rows') :
    RowsAlike E d clean (E.runOp (.unwind listExpr element) rows)
      (E.runOp (.unwind listExpr element) rows') := by
  obtain ⟨hlist, helement⟩ := within_append.mp hw
  apply forall₂_bindAll h
  · intro row row' hrow
    rw [eval_eq hE listExpr counting hlist hrow.env]
  · intro row row' hrow x _
    exact hrow.bind_mixed (helement.notNode mem_cons_self)

/-! ### Operators with a child plan -/

section
variable {child : List GraphOp} (hchild : ∀ {row row' : Row V}, row.Alike E d True row' →
  RowsAlike E d True (E.run child [row]) (E.run child [row']))
include hchild

lemma optional_alike (hE : E.Lawful) (h : RowsAlike E d clean rows rows') :
    RowsAlike E d clean (E.runOp (.optional child) rows) (E.runOp (.optional child) rows') := by
  apply rel_flatMap h
  intro row row' hrow
  exact optionalRows_alike hE _ hrow (hchild hrow.seed)

/-- An existence check does not tell alike rows apart. -/
lemma existsMatch_alike (negated : Bool) (h : RowsAlike E d clean rows rows') :
    RowsAlike E d clean (E.runOp (.existsMatch child negated) rows)
      (E.runOp (.existsMatch child negated) rows') := by
  apply forall₂_filter h
  intro row row' hrow
  have hempty : (E.run child [row.seed]).isEmpty = (E.run child [row'.seed]).isEmpty := by
    rw [Bool.eq_iff_iff, isEmpty_iff_length_eq_zero, isEmpty_iff_length_eq_zero,
      (hchild hrow.seed).length_eq]
  rw [hempty]

/-- A comprehension gives alike rows the same list. -/
lemma patternComprehension_alike {output : VarId} (houtput : output ∈ d.notNode)
    (h : RowsAlike E d clean rows rows') :
    RowsAlike E d clean (E.runOp (.patternComprehension child output) rows)
      (E.runOp (.patternComprehension child output) rows') := by
  apply rel_map _ h
  intro row row' hrow
  dsimp only
  rw [patternValues_eq (hchild hrow.seed)]
  exact hrow.bind_mixed houtput

/-- The scopes of one list element agree, so a clause is the same function of the element. -/
lemma elementClause_eq (hE : E.Lawful) {loopVar patternOutput : VarId} {clause : Option IrExpr}
    (hloop : loopVar ∈ d.notNode) (hpattern : patternOutput ∈ d.notNode)
    (hw : (walkOption false clause).Within d) (hrow : row.Alike E d clean row') :
    (clause.map fun e x => E.eval e ((row.env.bind loopVar x).bind patternOutput
      (E.list ((E.run child [(row.bind loopVar x).seed]).filterMap Row.patternValue?)))) =
    clause.map fun e x => E.eval e ((row'.env.bind loopVar x).bind patternOutput
      (E.list ((E.run child [(row'.bind loopVar x).seed]).filterMap Row.patternValue?))) := by
  cases clause with
  | none => rfl
  | some e =>
    refine congrArg some (funext fun x => ?_)
    have hbound := hrow.bind_mixed (x := x) hloop
    dsimp only
    rw [patternValues_eq (hchild hbound.seed)]
    exact eval_eq hE e false hw (hbound.env.bind_mixed hpattern)

end

mutual

/-- An operator that the census has walked keeps rows in agreement. -/
theorem runOp_alike (hE : E.Lawful) (hwrite : d.hasWrite = false) :
    ∀ (op : GraphOp) (counting : Bool) {clean : Prop} {rows rows' : List (Row V)},
    (walkOp counting op).Within d → RowsAlike E d clean rows rows' →
    RowsAlike E d clean (E.runOp op rows) (E.runOp op rows')
  | .nodeScan var ty, _, _, _, _, hw, h =>
    scan_alike h (hw.claimed mem_cons_self) (E.nodeScan · ty)
      fun _ bound hbound => hE.nodeScan_isNode bound ty hbound
  | .edgeScan var ty, _, _, _, _, hw, h =>
    scan_alike h (hw.claimed mem_cons_self) (E.edgeScan · ty) fun hmixed =>
      absurd (d.notNode_subset_mixed (hw.notNode mem_cons_self)) hmixed
  | .typedEdgeScan var relTy, _, _, _, _, hw, h =>
    scan_alike h (hw.claimed mem_cons_self) (E.edgeScan · (some relTy)) fun hmixed =>
      absurd (d.notNode_subset_mixed (hw.notNode mem_cons_self)) hmixed
  | .expand src edge dst hop, _, _, _, _, hw, h => by
    unfold walkOp at hw
    rw [within_append, within_append] at hw
    exact expand_alike hE hop (hw.1.1.claimed mem_cons_self)
      (hw.1.2.claimed mem_cons_self) (hw.2.claimed mem_cons_self)
      (hw.2.notNode mem_cons_self) h
  | .relationshipUnique edge priorEdges, _, _, _, _, hw, h => by
    unfold walkOp at hw
    rw [within_append] at hw
    exact unique_alike (hw.1.claimed mem_cons_self) hw.2.claimed h
  | .filter predicate, counting, _, _, _, hw, h =>
    forall₂_filter h fun _ _ hrow => by rw [eval_eq hE predicate counting hw hrow.env]
  | .project items distinct, _, _, _, _, hw, h => runOp_projects hE rfl hw h
  | .withScope items distinct predicate, _, _, _, _, hw, h => runOp_projects hE rfl hw h
  | .aggregate groupBy groupAliases groupVars aggs, _, _, _, _, hw, h =>
    runOp_projects hE rfl hw h
  | .union all inputs, _, _, _, _, hw, h => runOp_projects hE rfl hw h
  | .sort keys, _, _, _, _, hw, h => sort_alike hE hw h
  | .limit count, _, _, _, _, _, h => forall₂_take count h
  | .limitParam _, _, _, _, _, _, h => forall₂_take _ h
  | .limitExpr _, _, _, _, _, _, h => forall₂_take _ h
  | .skip count, _, _, _, _, _, h => forall₂_drop count h
  | .skipParam _, _, _, _, _, _, h => forall₂_drop _ h
  | .skipExpr _, _, _, _, _, _, h => forall₂_drop _ h
  | .optional child, counting, _, _, _, hw, h =>
    optional_alike (fun hrow => run_alike hE hwrite child counting hw (.cons hrow .nil)) hE h
  | .existsMatch child negated, _, _, _, _, hw, h =>
    existsMatch_alike (fun hrow => run_alike hE hwrite child false hw (.cons hrow .nil)) negated h
  | .patternComprehension child output, _, _, _, _, hw, h => by
    unfold walkOp at hw
    rw [within_append] at hw
    exact patternComprehension_alike
      (fun hrow => run_alike hE hwrite child false hw.2 (.cons hrow .nil))
      (hw.1.notNode mem_cons_self) h
  | .listElementPatternComprehension listExpr loopVar child patternOutput filter projection output,
      _, _, _, _, hw, h => by
    unfold walkOp at hw
    simp only [within_append] at hw
    obtain ⟨⟨⟨⟨⟨⟨hlist, hfilter⟩, hprojection⟩, hloop⟩, hpattern⟩, houtput⟩, hchild⟩ := hw
    apply rel_map _ h
    intro row row' hrow
    have hclause : ∀ clause : Option IrExpr, (walkOption false clause).Within d → _ :=
      fun clause hclause => elementClause_eq
        (fun hrow => run_alike hE hwrite child false hchild (.cons hrow .nil)) hE
        (hloop.notNode mem_cons_self) (hpattern.notNode mem_cons_self) hclause hrow
    show Row.Alike E d _ (row.bind output (E.comprehend _ _ _)) (row'.bind output (E.comprehend _ _ _))
    rw [eval_eq hE listExpr false hlist hrow.env, hclause filter hfilter,
      hclause projection hprojection]
    exact hrow.bind_mixed (houtput.notNode mem_cons_self)
  | .unwind listExpr element, _, _, _, _, hw, h => unwind_alike hE hw h
  | .call procedure args yields, counting, _, _, _, hw, h => by
    unfold walkOp at hw
    rw [within_append] at hw
    exact call_alike hE hw.1 hw.2.notNode h
  | .write _ _, _, _, _, _, hw, _ => by
    have hsome := hw.hasWrite rfl
    rw [hwrite] at hsome
    cases hsome

/-- A plan without a write keeps alike rows alike: operator by operator. -/
theorem run_alike (hE : E.Lawful) (hwrite : d.hasWrite = false) :
    ∀ (ops : List GraphOp) (counting : Bool) {clean : Prop} {rows rows' : List (Row V)},
    (walkPlan counting ops).Within d → RowsAlike E d clean rows rows' →
    RowsAlike E d clean (E.run ops rows) (E.run ops rows')
  | [], _, _, _, _, _, h => h
  | op :: ops, counting, _, _, _, hw, h => by
    unfold walkPlan at hw
    rw [within_append] at hw
    exact run_alike hE hwrite ops counting hw.2 (runOp_alike hE hwrite op counting hw.1 h)

end

end Rows

/-! ## The result -/

/-- The last operator of a plan that replaces the columns. -/
def lastProjection? (ops : List GraphOp) : Option GraphOp := ops.reverse.find? GraphOp.projects

/-- The last projecting operator is looked for from the end. -/
lemma lastProjection?_cons (op : GraphOp) (ops : List GraphOp) : lastProjection? (op :: ops) =
      (lastProjection? ops).or (if op.projects then some op else none) := by
  unfold lastProjection?
  cases hop : op.projects <;> simp [hop]

/-- The plan writes, and is then left alone, or no collect of its last projection qualifies. Such a
collect is itself a result column: a sort key that only measures it makes it qualify. -/
def ReturnedListsWhole (ops : List GraphOp) : Prop :=
  (Census.walkPlan true ops).hasWrite = true ∨
  ∀ groupBy groupAliases groupVars aggs,
    lastProjection? ops = some (.aggregate groupBy groupAliases groupVars aggs) →
    ∀ agg ∈ aggs, agg.func = .collect → ∀ listVar nodeVar, agg.outVar = some listVar →
      agg.arg.bind nodeStructOperand = some nodeVar →
      (Census.walkPlan true ops).settle.qualifies listVar nodeVar = false

/-- Then the last projection is not rewritten. -/
lemma narrowOp_lastProjection {ops : List GraphOp} (h : ReturnedListsWhole ops)
    (hwrite : ¬(Census.walkPlan true ops).hasWrite = true) {op : GraphOp}
    (hop : lastProjection? ops = some op) : narrowOp (Census.walkPlan true ops).settle op = op := by
  cases op with
  | aggregate groupBy groupAliases groupVars aggs =>
    have hsame : ∀ agg ∈ aggs, narrowAgg (Census.walkPlan true ops).settle agg = agg := by
      intro agg hagg
      unfold narrowAgg
      split
      · rename_i n hto
        obtain ⟨l, rest, hfunc, hl, harg, hq⟩ := narrowedTo_eq_some hto
        have hoperand : agg.arg.bind nodeStructOperand = some n := by
          rw [harg]
          rfl
        rw [h.resolve_left hwrite _ _ _ _ hop agg hagg hfunc l n hl hoperand] at hq
        cases hq
      · rfl
    show GraphOp.aggregate _ _ _ (aggs.map _) = _
    rw [map_congr_left hsame, map_id']
  | _ => rfl

open Census in
/-- The run of a plan and of its narrowed form end with equal columns, when the columns that
count are those of an operator that is not rewritten. -/
lemma run_narrow {E : Engine V} {d : Census} (hE : E.Lawful) (hwrite : d.hasWrite = false)
    (ops : List GraphOp) {clean : Prop} {rows rows' : List (Row V)}
    (hw : (walkPlan true ops).Within d) (h : RowsAlike E d clean rows rows')
    (hclean : clean ∨ ops.any GraphOp.projects = true)
    (hlast : ∀ op, lastProjection? ops = some op → narrowOp d.settle op = op) :
    RowsAlike E d True (E.run ops rows) (E.run (ops.map (narrowOp d.settle)) rows') := by
  induction ops generalizing clean rows rows' with
  | nil => exact h.imp fun _ _ hrow => hrow.mono fun _ => by simpa using hclean
  | cons op ops ih =>
    unfold walkPlan at hw
    rw [within_append] at hw
    have hrest : ∀ op', lastProjection? ops = some op' → narrowOp d.settle op' = op' := by
      intro op' hop'
      apply hlast
      rw [lastProjection?_cons, hop', Option.some_or]
    show Forall₂ _ (E.run ops (E.runOp op rows))
      (E.run (ops.map _) (E.runOp (narrowOp d.settle op) rows'))
    by_cases hany : ops.any GraphOp.projects = true
    · -- a later projection cleans the rows, whatever this operator does
      have hnext : RowsAlike E d False (E.runOp op rows)
          (E.runOp (narrowOp d.settle op) rows') := by
        cases op with
        | aggregate groupBy groupAliases groupVars aggs =>
          obtain ⟨hkeys, haggs⟩ := within_append.mp hw.1
          exact runOp_narrowOp hE hkeys haggs h
        | _ => exact (runOp_alike hE hwrite _ true hw.1 h).imp fun _ _ hrow => hrow.mono False.elim
      exact ih hw.2 hnext (Or.inr hany) hrest
    have hnone : lastProjection? ops = none := by
      unfold lastProjection?
      rw [find?_eq_none]
      intro op' hop' hprojects
      exact hany (any_eq_true.mpr ⟨op', mem_reverse.mp hop', hprojects⟩)
    by_cases hprojects : op.projects = true
    · have hsame : narrowOp d.settle op = op := by
        apply hlast
        rw [lastProjection?_cons, hnone, Option.none_or, if_pos hprojects]
      rw [hsame]
      exact ih hw.2 (runOp_projects hE hprojects hw.1 h) (Or.inl trivial) hrest
    have hsame : narrowOp d.settle op = op := by
      cases op with
      | aggregate groupBy groupAliases groupVars aggs => exact absurd rfl hprojects
      | _ => rfl
    have hstart : clean := by
      simpa [hany, hprojects] using hclean
    rw [hsame]
    exact ih hw.2 (runOp_alike hE hwrite op true hw.1 h) (Or.inl hstart) hrest

/-- Narrowing keeps the results of every plan that writes or returns no collect that qualifies. -/
theorem narrowNodeCollects_keeps_results (E : Engine V) (hE : E.Lawful) (ops : List GraphOp)
    (h : ReturnedListsWhole ops) : E.results (narrowNodeCollects ops) = E.results ops := by
  unfold narrowNodeCollects
  by_cases hwrite : (Census.walkPlan true ops).hasWrite = true
  · simp only [if_pos hwrite]
  simp only [if_neg hwrite]
  have hstart : Forall₂ (Row.Alike E (Census.walkPlan true ops) True)
      [Row.start] [Row.start] :=
    Forall₂.cons ⟨Env.Alike.empty, fun _ => rfl⟩ .nil
  have hrun := run_narrow hE (by simpa using hwrite) ops (Census.Within.refl _) hstart
    (Or.inl trivial) fun op hop => narrowOp_lastProjection h hwrite hop
  exact (hrun.map_eq_map fun _ _ hrow => hrow.columns trivial).symm

/-! ## A graph of one node -/

/-- Values of the sample: a node or its identity, and lists that say whether they hold whole nodes.
-/
inductive SampleValue where
  | null
  | identity (n : ℕ)
  | node (n : ℕ)
  | number (n : ℕ)
  | list (whole : Bool) (ids : List ℕ)
  deriving DecidableEq, Repr

namespace SampleValue

/-- The identity in a value. -/
def id? : SampleValue → Option ℕ
  | .identity n | .node n => some n
  | _ => none

/-- Whether a value is a whole node. -/
def isWhole : SampleValue → Bool
  | .node _ => true
  | _ => false

/-- Whether a value may stand for a node. -/
def isNode : SampleValue → Bool
  | .null | .identity _ => true
  | _ => false

/-- `_node_struct`. -/
def struct : List SampleValue → SampleValue
  | .identity n :: _ => .node n
  | _ => .null

/-- The size of a list. -/
def size : List SampleValue → SampleValue
  | [.list _ ids] => .number ids.length
  | _ => .null

/-- Membership by identity. -/
def isIn (x : SampleValue) : SampleValue → SampleValue
  | .list _ ids => .number (if x.id?.any ids.contains then 1 else 0)
  | _ => .null

/-- Whether `count` counts an argument; `count(*)` has none. -/
def counts : Option SampleValue → Bool
  | some .null => false
  | _ => true

end SampleValue

/-- An engine over the graph whose only node has the identity 7. -/
def sampleEngine : Engine SampleValue where
  null := .null
  isNode := SampleValue.isNode
  literal _ := .null
  parameter _ := .null
  property _ _ := .null
  binary op x y := if op = .isIn then x.isIn y else .null
  unary _ _ := .null
  apply name args := if name = nodeStructCall then .struct args
    else if name.toLower = "size" then .size args else .null
  caseOf _ _ _ := .null
  list values := .list false (values.filterMap SampleValue.id?)
  map _ := .null
  quantify _ _ _ := .null
  comprehend x _ _ := x
  isTrue x := x == .number 1
  elements x := match x with
    | .list _ ids => ids.map .identity
    | _ => []
  rowCount x := match x with
    | .number n => n
    | _ => 0
  nodeScan bound _ := match bound with
    | none => [.identity 7]
    | some x => [x]
  edgeScan _ _ := []
  expand _ _ _ _ := []
  unique _ _ := true
  procedure _ _ := []
  groups _ keys := [range keys.length]
  distinct columns := range columns.length
  sorted _ keys := range keys.length
  aggregate func args := match func with
    | .collect => .list (args.any fun a => a.1.any SampleValue.isWhole)
        (args.filterMap fun a => a.1.bind SampleValue.id?)
    | .count => .number (args.countP fun a => SampleValue.counts a.1)
    | _ => .null
  write _ _ rows := rows

/-- The two lists of a group hold the same identities. -/
lemma sampleEngine_lists {rows : List (SampleValue × List SampleValue × Option SampleValue)}
    (h : sampleEngine.NodeRows rows) :
    ∃ ids b b', sampleEngine.wholeList rows = .list b ids ∧
      sampleEngine.identityList rows = .list b' ids := by
  have hwhole : (rows.map fun row => (some (sampleEngine.apply nodeStructCall (row.1 :: row.2.1)),
      row.2.2)).filterMap (fun a => a.1.bind SampleValue.id?) =
      rows.filterMap fun row => row.1.id? := by
    rw [filterMap_map]
    apply filterMap_congr
    intro row hrow
    have hnode : row.1.isNode = true := h row hrow
    show (SampleValue.struct (row.1 :: row.2.1)).id? = row.1.id?
    cases hx : row.1 with
    | null => rfl
    | identity n => rfl
    | _ => rw [hx] at hnode; cases hnode
  have hident : (rows.map fun row => (some row.1, row.2.2)).filterMap
      (fun a => a.1.bind SampleValue.id?) = rows.filterMap fun row => row.1.id? := by
    rw [filterMap_map]
    rfl
  exact ⟨_, _, _, congrArg (SampleValue.list _) hwhole, congrArg (SampleValue.list _) hident⟩

/-- The sample engine satisfies the laws. -/
lemma sampleEngine_lawful : sampleEngine.Lawful where
  null_isNode := rfl
  nodeScan_isNode := by
    intro bound ty hbound x hx
    cases bound with
    | none =>
      cases mem_singleton.mp hx
      rfl
    | some y =>
      cases mem_singleton.mp hx
      exact hbound x rfl
  expand_isNode := by
    intro src edge dst hop found hfound
    cases hfound
  size_alike := by
    intro name rows hname hrows
    obtain ⟨ids, b, b', hwhole, hident⟩ := sampleEngine_lists hrows
    have hother : name ≠ nodeStructCall := by
      intro h
      rw [h] at hname
      exact absurd hname (by decide +kernel)
    rw [hwhole, hident]
    show (if name = nodeStructCall then _ else _) = if name = nodeStructCall then _ else _
    rfl
  member_alike := by
    intro x rows _ hrows
    obtain ⟨ids, b, b', hwhole, hident⟩ := sampleEngine_lists hrows
    rw [hwhole, hident]
    rfl
  count_alike := by
    intro args args' h
    have hcounts : ∀ a b : Option SampleValue × Option SampleValue,
        ((a.1 = b.1 ∨ sampleEngine.Twins a.1 b.1) ∧ a.2 = b.2) →
        SampleValue.counts a.1 = SampleValue.counts b.1 := by
      intro a b hab
      rcases hab.1 with heq | ⟨rows, hrows, ha, hb⟩
      · rw [heq]
      · obtain ⟨ids, _, _, hwhole, hident⟩ := sampleEngine_lists hrows
        rw [ha, hb, hwhole, hident]
        rfl
    show SampleValue.number _ = SampleValue.number _
    congr 1
    induction h with
    | nil => rfl
    | cons hab _ ih => rw [countP_cons, countP_cons, ih, hcounts _ _ hab]

/-- `collect(n) AS ns` of the node in variable 0. -/
def collectNodes : ReturnExpr :=
  .aggregate .collect false (some (.functionCall nodeStructCall [.varRef 0])) none

/-- `MATCH (n) WITH collect(n) AS ns RETURN size(ns) AS c`. -/
def measuredList : List GraphOp :=
  [.nodeScan 0 none, lowerReturnAggregate 1 [⟨collectNodes, some "ns", none⟩],
    .project [⟨.functionCall "size" [.varRef 1], some "c", none⟩] false]

/-- A list that is only measured. -/
theorem narrowNodeCollects_keeps_results_sample : ReturnedListsWhole measuredList ∧
      sampleEngine.results (narrowNodeCollects measuredList) = sampleEngine.results measuredList ∧
      sampleEngine.results measuredList = [[(some "c", .number 1)]] := by
  have hwhole : ReturnedListsWhole measuredList := by
    right
    intro groupBy groupAliases groupVars aggs hlast
    cases hlast
  exact ⟨hwhole, narrowNodeCollects_keeps_results sampleEngine sampleEngine_lawful measuredList
    hwhole, by decide +kernel⟩

/-- `MATCH (n) RETURN collect(n) AS ns ORDER BY size(ns)`. -/
def orderedList : List GraphOp :=
  .nodeScan 0 none :: lowerAggregatingReturn 1 [⟨collectNodes, some "ns", none⟩]
    [⟨.functionCall "size" [.varRef 1], .asc, false⟩] []

/-- The sort key is an identity-only use of the returned list, so the list is narrowed and the
query returns identities in place of nodes. -/
theorem narrowNodeCollects_changes_ordered_list : sampleEngine.Lawful ∧
      sampleEngine.results orderedList = [[(some "ns", .list true [7])]] ∧
      sampleEngine.results (narrowNodeCollects orderedList) = [[(some "ns", .list false [7])]] :=
  ⟨sampleEngine_lawful, by decide +kernel, by decide +kernel⟩

end GraphForge.Binder
