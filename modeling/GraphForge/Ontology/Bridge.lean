import GraphForge.Lib.Maps
import GraphForge.Lib.Outcome
import Mathlib.Data.String.Basic
import Mathlib.Data.Sym.Sym2.Order

/-!
# Contradictions between bridge assertions

`detectContradictions` groups the assertions of a bridge set by the displayed names of their ends
and looks for an equivalence beside a disjointness, and for broader assertions in both directions.
What it finds is a clash of displayed meanings, except that it never compares two narrower
assertions with each other, and that symbols of different modules may display alike. So the answer
depends on the spelling of a hierarchy, and may blame symbols that no two assertions share.
-/

namespace GraphForge.Ontology

open List Except

/-! ## Symbols and assertions -/

/-- Exact identity of an ontology module. -/
structure OntologyModuleId where
  ontologyId : String
  authoredVersion : String
  canonicalDigest : String
  deriving DecidableEq, Repr

/-- `short_name`: what stands after the last slash. -/
def OntologyModuleId.shortName (m : OntologyModuleId) : String :=
  String.ofList (m.ontologyId.toList.reverse.takeWhile (· ≠ '/')).reverse

/-- The kinds of symbols. -/
inductive SymbolKind where
  | entity
  | relation
  | property
  | constraint
  | migration
  deriving DecidableEq, Repr

/-- `SymbolKind::as_str`. -/
def SymbolKind.asStr : SymbolKind → String
  | entity => "entity"
  | relation => "relation"
  | property => "property"
  | constraint => "constraint"
  | migration => "migration"

/-- A symbol of a module. -/
structure QualifiedSymbol where
  moduleId : OntologyModuleId
  kind : SymbolKind
  localId : String
  deriving DecidableEq, Repr

/-- `short:kind:local`. -/
def QualifiedSymbol.display (s : QualifiedSymbol) : String :=
  s.moduleId.shortName ++ ":" ++ s.kind.asStr ++ ":" ++ s.localId

/-- What a bridge asserts. -/
inductive BridgePredicate where
  | equivalent
  | related
  | broader
  | narrower
  | disjoint
  | mapsTo
  | evidenceFor
  deriving DecidableEq, Repr

/-- `BridgePredicate::as_str`. -/
def BridgePredicate.asStr : BridgePredicate → String
  | equivalent => "equivalent"
  | related => "related"
  | broader => "broader"
  | narrower => "narrower"
  | disjoint => "disjoint"
  | mapsTo => "maps_to"
  | evidenceFor => "evidence_for"

/-- One mapping between exact symbols. -/
structure BridgeAssertion where
  source : QualifiedSymbol
  target : QualifiedSymbol
  predicate : BridgePredicate
  deriving DecidableEq, Repr

/-! ## Diagnostics -/

/-- The one diagnostic of bridges. -/
inductive DiagnosticCode where
  | bridgeContradiction
  deriving DecidableEq, Repr

/-- The phase that bridges are checked in. -/
inductive CompositionPhase where
  | bridge
  deriving DecidableEq, Repr

/-- The phase of a diagnostic. -/
def DiagnosticCode.phase : DiagnosticCode → CompositionPhase
  | bridgeContradiction => .bridge

/-- How many names a diagnostic may list. -/
structure DiagnosticLimit where
  maxCandidates : ℕ

/-- A diagnostic, with the names it is about. -/
structure CompositionDiagnostic where
  code : DiagnosticCode
  phase : CompositionPhase
  message : String
  subjects : List String
  candidates : List String
  limit : ℕ
  deriving DecidableEq, Repr

/-- Sort, drop repetitions and truncate. -/
def boundList (items : List String) (cap : ℕ) : List String :=
  ((items.insertionSort (· ≤ ·)).destutter (· ≠ ·)).take cap

/-- `CompositionDiagnostic::new`, which cuts its lists at the limit. -/
def CompositionDiagnostic.new (code : DiagnosticCode) (message : String)
    (subjects candidates : List String) (limit : DiagnosticLimit) : CompositionDiagnostic :=
  let cap := max limit.maxCandidates 1
  ⟨code, code.phase, message, boundList subjects cap, boundList candidates cap, cap⟩

/-- The diagnostics of a composition that fails. -/
structure CompositionError where
  diagnostics : List CompositionDiagnostic
  deriving DecidableEq, Repr

/-- `CompositionError::one` of a `BridgeContradiction`. -/
def contradiction (message : String) (subjects candidates : List String)
    (limit : DiagnosticLimit) : CompositionError :=
  ⟨[.new .bridgeContradiction message subjects candidates limit]⟩

/-! ## The detection -/

variable (a : BridgeAssertion)

/-- The displayed ends, the lesser first. -/
def BridgeAssertion.pairKey : String × String :=
  if a.source.display ≤ a.target.display then (a.source.display, a.target.display)
  else (a.target.display, a.source.display)

/-- The entry of an assertion in `directed`. -/
def BridgeAssertion.displayed : String × BridgePredicate × String :=
  (a.source.display, a.predicate, a.target.display)

variable (limit : DiagnosticLimit)

/-- The turn of one assertion of a group. -/
def checkBroader (group : List BridgeAssertion) (a : BridgeAssertion) :
    Except CompositionError Unit :=
  let directed := group.map (·.displayed)
  refuseIf (a.predicate = .broader ∧ ((a.target.display, .broader, a.source.display) ∈ directed ∨
        (a.source.display, .narrower, a.target.display) ∈ directed))
    (contradiction "broader/narrower assertions form an incoherent pair"
      [a.source.display, a.target.display]
      [BridgePredicate.broader.asStr, BridgePredicate.narrower.asStr] limit)

/-- The assertions of one pair of displayed ends. -/
def checkGroup (group : List BridgeAssertion) : Except CompositionError Unit := do
  let predicates := group.map (·.predicate)
  refuseIf (.equivalent ∈ predicates ∧ .disjoint ∈ predicates)
    (contradiction "equivalent and disjoint assertions conflict for the same endpoints"
      (group.flatMap fun a => [a.source.display, a.target.display])
      (group.map (·.predicate.asStr)) limit)
  group.forM (checkBroader limit group)

/-- An order in which a `HashMap` is gone through. -/
structure HashOrder (α : Type) where
  visit : List α → List α
  perm : ∀ xs, (visit xs).Perm xs

/-- `detect_contradictions`: the groups of one pair of names, in the order of a hash map. -/
def detectContradictions (order : HashOrder (Σ _ : String × String, List BridgeAssertion))
    (limit : DiagnosticLimit) (assertions : List BridgeAssertion) : Except CompositionError Unit :=
  (order.visit (Map.group (·.pairKey) assertions).entries).forM fun e => checkGroup limit e.2

/-! ## Meaning -/

/-- What an assertion says, however it is spelled. -/
inductive Meaning where
  | hierarchy (broader narrower : QualifiedSymbol)
  | equivalent (ends : Sym2 QualifiedSymbol)
  | disjoint (ends : Sym2 QualifiedSymbol)
  | other (assertion : BridgeAssertion)

/-- What an assertion says, whichever way it is spelled. -/
def BridgeAssertion.meaning : Meaning :=
  match a.predicate with
  | .broader => .hierarchy a.source a.target
  | .narrower => .hierarchy a.target a.source
  | .equivalent => .equivalent s(a.source, a.target)
  | .disjoint => .disjoint s(a.source, a.target)
  | _ => .other a

/-- Two hierarchies go in opposite directions, when symbols are told apart by `name` only. -/
def Meaning.Crosses {N : Type} (name : QualifiedSymbol → N) : Meaning → Meaning → Prop
  | hierarchy x y, hierarchy x' y' => name x = name y' ∧ name y = name x'
  | _, _ => False

/-- An equivalence and a disjointness are about the same names. -/
def Meaning.Denies {N : Type} (name : QualifiedSymbol → N) : Meaning → Meaning → Prop
  | equivalent e, disjoint e' => e.map name = e'.map name
  | _, _ => False

/-- Two meanings that cannot hold together. -/
def Meaning.Clash {N : Type} (name : QualifiedSymbol → N) (m m' : Meaning) : Prop :=
  m.Crosses name m' ∨ m.Denies name m'

/-- Some two of the assertions are so related (an assertion may be related to itself). -/
def HasPair (r : Meaning → Meaning → Prop) (as : List BridgeAssertion) : Prop :=
  ∃ a ∈ as, ∃ b ∈ as, r a.meaning b.meaning

/-- The displayed names of two of the assertions clash, and they are not both narrower ones. -/
def HasSeenClash (as : List BridgeAssertion) : Prop :=
  ∃ a ∈ as, ∃ b ∈ as, a.meaning.Clash QualifiedSymbol.display b.meaning ∧
    ¬(a.predicate = .narrower ∧ b.predicate = .narrower)

/-- The same meanings, respelled, reordered and repeated at will. -/
def SameMeaning (as bs : List BridgeAssertion) : Prop :=
  ∀ m, m ∈ as.map (·.meaning) ↔ m ∈ bs.map (·.meaning)

/-- Whether `as` is accepted depends on its meaning only, and a refusal is justified by two
assertions about the same exact symbols. -/
def DependsOnMeaning (as : List BridgeAssertion) : Prop :=
  (∀ order order' bs, SameMeaning as bs → (detectContradictions order limit as = .ok () ↔
      detectContradictions order' limit bs = .ok ())) ∧
  ∀ order, detectContradictions order limit as ≠ .ok () → HasPair (Meaning.Clash id) as

/-! ## What is detected -/

open BridgeAssertion Meaning

variable {N : Type} {name : QualifiedSymbol → N} {a b : BridgeAssertion}
  {as bs : List BridgeAssertion} {limit : DiagnosticLimit}

/-- Two assertions are in one group when they are about the same two names. -/
lemma pairKey_eq_iff : a.pairKey = b.pairKey ↔
    s(a.source.display, a.target.display) = s(b.source.display, b.target.display) := by
  have hkey (a : BridgeAssertion) : a.pairKey =
      (s(a.source.display, a.target.display).inf, s(a.source.display, a.target.display).sup) := by
    unfold pairKey
    split
    next h => simp [h]
    next h => simp [(not_le.mp h).le]
  rw [hkey, hkey, Prod.mk.injEq, Sym2.inf_eq_inf_and_sup_eq_sup]

/-- The ends of clashing assertions are the same. -/
lemma ends_of_clash (h : a.meaning.Clash name b.meaning) :
    s(name a.source, name a.target) = s(name b.source, name b.target) := by
  obtain ⟨x, y, p⟩ := a
  obtain ⟨x', y', q⟩ := b
  cases p <;> cases q <;> simp_all [meaning, Clash, Crosses, Denies]

/-- What the turn of a broader assertion looks for is the other half of a clash. -/
lemma displayed_iff (h : a.predicate = .broader) :
    (b.displayed = (a.target.display, .broader, a.source.display) ∨
      b.displayed = (a.source.display, .narrower, a.target.display)) ↔
    a.meaning.Clash QualifiedSymbol.display b.meaning := by
  obtain ⟨x, y, p⟩ := b
  simp only [meaning, h, displayed, Prod.mk.injEq]
  cases p <;> simp [Clash, Crosses, Denies, eq_comm, and_comm]

/-- The check of one assertion accepts unless it is `broader` and clashes. -/
lemma checkBroader_eq_ok_iff : checkBroader limit as a = .ok () ↔
    (a.predicate = .broader → ∀ b ∈ as, ¬a.meaning.Clash QualifiedSymbol.display b.meaning) := by
  unfold checkBroader
  rw [refuseIf_eq_ok_iff, not_and]
  apply imp_congr_right
  intro h
  simp only [mem_map, ← exists_or, ← and_or_left, displayed_iff h, not_exists, not_and]

/-- The check of a group accepts unless a `broader` clashes, or `equivalent` meets `disjoint`. -/
lemma checkGroup_eq_ok_iff : checkGroup limit as = .ok () ↔
    ¬(∃ a ∈ as, ∃ b ∈ as, a.predicate = .equivalent ∧ b.predicate = .disjoint) ∧
      ∀ a ∈ as, a.predicate = .broader →
        ∀ b ∈ as, ¬a.meaning.Clash QualifiedSymbol.display b.meaning := by
  unfold checkGroup
  rw [check_bind_eq_ok_iff]
  simp only [refuseIf_eq_ok_iff, forM_eq_ok_iff, checkBroader_eq_ok_iff, mem_map]
  grind

/-- Of two clashing assertions that are not both narrower, one makes the detection look for the
other. -/
lemma looksFor_of_clash (h : a.meaning.Clash name b.meaning)
    (hseen : ¬(a.predicate = .narrower ∧ b.predicate = .narrower)) :
    (a.predicate = .equivalent ∧ b.predicate = .disjoint) ∨ a.predicate = .broader ∨
      b.predicate = .broader ∧ b.meaning.Clash name a.meaning := by
  obtain ⟨x, y, p⟩ := a
  obtain ⟨x', y', q⟩ := b
  cases p <;> cases q <;> simp_all [meaning, Clash, Crosses, Denies]

/-- The assertions are accepted unless displayed names clash in two that are compared. -/
lemma detectContradictions_eq_ok_iff (order) :
    detectContradictions order limit as = .ok () ↔ ¬HasSeenClash as := by
  have hgroup (a : BridgeAssertion) (k : String × String) :
      a ∈ as.filter (·.pairKey = k) ↔ a ∈ as ∧ a.pairKey = k := by
    rw [mem_filter, decide_eq_true_iff]
  unfold detectContradictions
  rw [forM_eq_ok_iff]
  constructor
  · rintro hok ⟨a, ha, b, hb, hclash, hseen⟩
    -- the group of `a` holds `b` too
    have ha' := (hgroup a a.pairKey).mpr ⟨ha, rfl⟩
    have hb' := (hgroup b a.pairKey).mpr ⟨hb, (pairKey_eq_iff.mpr (ends_of_clash hclash)).symm⟩
    have hlookup := Map.lookup_group (·.pairKey) as a.pairKey
    rw [if_neg (ne_nil_of_mem ha')] at hlookup
    have hgroup := hok _ ((order.perm _).mem_iff.mpr (AList.mem_lookup_iff.mp hlookup))
    obtain ⟨hdisjoint, hbroader⟩ := checkGroup_eq_ok_iff.mp hgroup
    obtain ⟨h₁, h₂⟩ | h₁ | ⟨h₁, hclash'⟩ := looksFor_of_clash hclash hseen
    · exact hdisjoint ⟨a, ha', b, hb', h₁, h₂⟩
    · exact hbroader a ha' h₁ b hb' hclash
    · exact hbroader b hb' h₁ a ha' hclash'
  · intro hnone ⟨k, group⟩ he
    have hlookup := AList.mem_lookup_iff.mpr ((order.perm _).mem_iff.mp he)
    rw [Map.lookup_group] at hlookup
    split at hlookup
    next => exact absurd hlookup (Option.not_mem_none _)
    next =>
      obtain rfl := Option.mem_some.mp hlookup
      rw [checkGroup_eq_ok_iff]
      simp only [hgroup]
      constructor
      · rintro ⟨a, ⟨ha, hak⟩, b, ⟨hb, hbk⟩, h₁, h₂⟩
        have hends := pairKey_eq_iff.mp (hak.trans hbk.symm)
        refine hnone ⟨a, ha, b, hb, .inr ?_, by simp [h₁]⟩
        rwa [meaning, meaning, h₁, h₂]
      · intro a ⟨ha, _⟩ h₁ b ⟨hb, _⟩ hclash
        exact hnone ⟨a, ha, b, hb, hclash, by simp [h₁]⟩

/-! ## Spelling -/

/-- The spelling of an assertion with one of the two hierarchical predicates. -/
def BridgeAssertion.spelled (narrower : Bool) (a : BridgeAssertion) : BridgeAssertion :=
  match a.meaning with
  | .hierarchy x y => if narrower then ⟨y, x, .narrower⟩ else ⟨x, y, .broader⟩
  | _ => a

/-- Spelling does not change the meaning. -/
lemma meaning_spelled (narrower : Bool) (a : BridgeAssertion) :
    (a.spelled narrower).meaning = a.meaning := by
  unfold spelled
  split
  next h => cases narrower <;> exact h.symm
  next => rfl

lemma sameMeaning_spelled (narrower : Bool) (as : List BridgeAssertion) :
    SameMeaning as (as.map (·.spelled narrower)) := by
  intro m
  rw [map_map]
  simp only [Function.comp_def, meaning_spelled]

/-- Assertions of the same meanings have the same pairs. -/
lemma SameMeaning.hasPair {r : Meaning → Meaning → Prop} (h : SameMeaning as bs) :
    HasPair r as ↔ HasPair r bs := by
  have hall (as : List BridgeAssertion) : HasPair r as ↔
      ∃ m ∈ as.map (·.meaning), ∃ m' ∈ as.map (·.meaning), r m m' := by
    simp [HasPair]
  unfold SameMeaning at h
  simp only [hall, h]

/-- The detection sees every clash of an equivalence and a disjointness. -/
lemma hasSeenClash_of_denies (h : HasPair (Denies QualifiedSymbol.display) as) :
    HasSeenClash as := by
  obtain ⟨a, ha, b, hb, hdenies⟩ := h
  refine ⟨a, ha, b, hb, .inr hdenies, fun ⟨hnarrower, _⟩ => ?_⟩
  rw [meaning, hnarrower] at hdenies
  exact hdenies

/-- Crossing hierarchies are seen when they are spelled `broader`. -/
lemma hasSeenClash_broader (h : HasPair (Crosses QualifiedSymbol.display) as) :
    HasSeenClash (as.map (·.spelled false)) := by
  obtain ⟨a, ha, b, hb, hcrosses⟩ := h
  refine ⟨_, mem_map_of_mem ha, _, mem_map_of_mem hb, ?_, fun ⟨hnarrower, _⟩ => ?_⟩
  · rw [meaning_spelled, meaning_spelled]
    exact .inl hcrosses
  · unfold spelled at hnarrower
    split at hnarrower
    next => cases hnarrower
    next => simp_all [meaning, Crosses]

/-- They are not when they are spelled `narrower`. -/
lemma denies_of_narrower (h : HasSeenClash (as.map (·.spelled true))) :
    HasPair (Denies QualifiedSymbol.display) as := by
  obtain ⟨a', ha', b', hb', hclash, hseen⟩ := h
  obtain ⟨a, ha, rfl⟩ := mem_map.mp ha'
  obtain ⟨b, hb, rfl⟩ := mem_map.mp hb'
  rw [meaning_spelled, meaning_spelled] at hclash
  refine ⟨a, ha, b, hb, hclash.resolve_left fun hcrosses => hseen ?_⟩
  unfold spelled
  cases ha : a.meaning <;> cases hb : b.meaning <;> simp_all [Crosses]

/-- The detection depends on the meaning of the assertions only if crossing hierarchies come with
an equivalence and a disjointness of the same displayed names, and those with a clash of exact
symbols. -/
theorem dependsOnMeaning_iff : DependsOnMeaning limit as ↔
    (HasPair (Crosses QualifiedSymbol.display) as → HasPair (Denies QualifiedSymbol.display) as) ∧
    (HasPair (Denies QualifiedSymbol.display) as → HasPair (Clash id) as) := by
  have order : HashOrder (Σ _ : String × String, List BridgeAssertion) := ⟨id, fun _ => .refl _⟩
  unfold DependsOnMeaning
  simp only [detectContradictions_eq_ok_iff, ne_eq, not_not, not_iff_not]
  constructor
  · rintro ⟨hspelling, hexact⟩
    refine ⟨fun hcrosses => ?_, fun h => hexact order (hasSeenClash_of_denies h)⟩
    have hseen := (hspelling order order _ (sameMeaning_spelled false as)).mpr
      (hasSeenClash_broader hcrosses)
    exact denies_of_narrower ((hspelling order order _ (sameMeaning_spelled true as)).mp hseen)
  · rintro ⟨hcrosses, hdenies⟩
    -- a list with these meanings is refused for an equivalence and a disjointness
    have hseen (bs) (h : SameMeaning as bs) :
        HasSeenClash bs ↔ HasPair (Denies QualifiedSymbol.display) as := by
      refine ⟨fun ⟨a, ha, b, hb, hclash, _⟩ => ?_, fun hd => hasSeenClash_of_denies (h.hasPair.mp hd)⟩
      obtain hclash | hclash := hclash
      · exact hcrosses (h.hasPair.mpr ⟨a, ha, b, hb, hclash⟩)
      · exact h.hasPair.mpr ⟨a, ha, b, hb, hclash⟩
    have hself := hseen as fun _ => .rfl
    exact ⟨fun _ _ bs h => hself.trans (hseen bs h).symm, fun _ h => hdenies (hself.mp h)⟩

/-- Narrower assertions in both directions are accepted, and refused when they are spelled broader;
and an assertion between symbols that only display alike is refused. -/
theorem not_dependsOnMeaning :
    let x (id : String) : QualifiedSymbol := ⟨⟨id, "1", ""⟩, .entity, "A"⟩
    ¬DependsOnMeaning ⟨16⟩ [⟨x "m", x "n", .narrower⟩, ⟨x "n", x "m", .narrower⟩] ∧
      ¬DependsOnMeaning ⟨16⟩ [⟨x "a/m", x "b/m", .broader⟩] := by
  have order : HashOrder (Σ _ : String × String, List BridgeAssertion) := ⟨id, fun _ => .refl _⟩
  intro x
  unfold DependsOnMeaning
  simp only [detectContradictions_eq_ok_iff, ne_eq, not_not, not_iff_not]
  constructor
  · intro ⟨hspelling, _⟩
    have hseen := (hspelling order order _ (sameMeaning_spelled false _)).mpr
      (hasSeenClash_broader ⟨_, mem_cons_self, _, mem_cons_of_mem _ mem_cons_self, rfl, rfl⟩)
    simp [HasSeenClash] at hseen
  · intro ⟨_, hexact⟩
    have hdisplay : (x "a/m").display = (x "b/m").display := by decide
    have hpair := hexact order ⟨_, mem_cons_self, _, mem_cons_self,
      .inl ⟨hdisplay, hdisplay.symm⟩, nofun⟩
    simp [HasPair, Clash, Crosses, Denies, meaning, x] at hpair

end GraphForge.Ontology
