import Mathlib.Data.List.Nodup
import GraphForge.HubPublish.History

/-!
# Published history is append-only

Without a rewrite and without a prune, an accepted lineage `Extends` the one before it: every
published Version, Branch creation and Proposal is still there, and every head descends from the
former head of its Branch. Extension composes, because parents never change and paths of the earlier
lineage are paths of the later one. So along any run of accepted publications each lineage extends
all that came before it.
-/

namespace GraphForge.HubPublish

open Except
open Discovery

/-! ## Canonical order of the records -/

lemma lt_of_not_priorNotBelow {prior : Option String} {current : String}
    (h : ¬ priorNotBelow prior current) : ∀ name ∈ prior, name < current := by
  intro name hname
  exact not_le.mp fun hle => h ⟨name, hname, hle⟩

/-- Records in ascending order of their keys are determined by them. -/
lemma eq_of_ascending {α : Type} {key : α → String} {records : List α}
    (hasc : records.Pairwise (key · < key ·)) {a b : α} (ha : a ∈ records) (hb : b ∈ records)
    (hkey : key a = key b) : a = b := by
  have hnodup : (records.map key).Nodup :=
    List.pairwise_map.mpr (hasc.imp fun hlt => ne_of_lt hlt)
  exact List.inj_on_of_nodup_map hnodup ha hb hkey

section Validated

variable {lineage : ResearchLineage} {limits : DiscoveryLimits} {u : Unit}
  (h : lineage.validate limits = .ok u)
include h

/-- The loops over the records that a valid document has passed. -/
lemma loops_of_validate : (∃ scan, lineage.branches.foldlM (Discovery.validateBranch limits)
        { prior := none, branchRefs := [] } = .ok scan) ∧
      (∃ prior, lineage.versions.foldlM (validateVersion limits) none = .ok prior) ∧
      ∃ prior, lineage.proposals.foldlM
        (Discovery.validateProposal lineage.versions lineage.branches limits) none = .ok prior := by
  simp only [ResearchLineage.validate, ResearchLineage.validateRecords, bind_eq_ok_iff] at h
  obtain ⟨_, -, _, -, scan, hbranches, prior, hversions, h⟩ := h
  -- tags, anchors, the parent closure, the parents and their graph
  obtain ⟨_, -, _, -, _, -, _, -, _, -, prior', hproposals, -⟩ := h
  exact ⟨⟨scan, hbranches⟩, ⟨prior, hversions⟩, prior', hproposals⟩

lemma branches_ascending : lineage.branches.Pairwise (·.branchUuid < ·.branchUuid) := by
  obtain ⟨scan, hloop⟩ := (loops_of_validate h).1
  refine (pairwise_of_foldlM_prior BranchScan.prior hloop ?_).1
  intro scan branch scan' hstep
  simp only [Discovery.validateBranch, bind_eq_ok_iff] at hstep
  obtain ⟨_, -, _, horder, _, -, hstep⟩ := hstep
  refine ⟨lt_of_not_priorNotBelow (refuseIf_eq_ok_iff.mp horder), ?_⟩
  cases hstep
  rfl

lemma versions_ascending : lineage.versions.Pairwise (·.versionUuid < ·.versionUuid) := by
  obtain ⟨last, hloop⟩ := (loops_of_validate h).2.1
  refine (pairwise_of_foldlM_prior id hloop ?_).1
  intro prior version prior' hstep
  simp only [validateVersion, bind_eq_ok_iff] at hstep
  obtain ⟨_, -, _, horder, hstep⟩ := hstep
  refine ⟨lt_of_not_priorNotBelow (refuseIf_eq_ok_iff.mp horder), ?_⟩
  cases hstep
  rfl

lemma proposals_ascending : lineage.proposals.Pairwise (·.proposalUuid < ·.proposalUuid) := by
  obtain ⟨last, hloop⟩ := (loops_of_validate h).2.2
  refine (pairwise_of_foldlM_prior id hloop ?_).1
  intro prior proposal prior' hstep
  simp only [Discovery.validateProposal, bind_eq_ok_iff] at hstep
  obtain ⟨_, -, _, horder, _, -, hstep⟩ := hstep
  refine ⟨lt_of_not_priorNotBelow (refuseIf_eq_ok_iff.mp horder), ?_⟩
  cases hstep
  rfl

end Validated

/-! ## What an extension keeps -/

/-- Absent data may be supplied; published data stays. -/
def FilledIn {α : Type} (old new : Option α) : Prop := old = none ∨ new = old

lemma FilledIn.trans {α : Type} {a b c : Option α} (hab : FilledIn a b) (hbc : FilledIn b c) :
    FilledIn a c := by
  by_cases ha : a = none
  · exact .inl ha
  have hb : b = a := hab.resolve_left ha
  exact .inr ((hbc.resolve_left (hb ▸ ha)).trans hb)

/-- `new` is the record `old`, with package and credit supplied at most. -/
structure Retains (old new : LineageVersion) : Prop where
  versionUuid : new.versionUuid = old.versionUuid
  parents : new.parents = old.parents
  identityDigest : new.identityDigest = old.identityDigest
  kind : new.kind = old.kind
  branchUuid : new.branchUuid = old.branchUuid
  sourceVersionUuid : new.sourceVersionUuid = old.sourceVersionUuid
  author : FilledIn old.author new.author
  committer : FilledIn old.committer new.committer
  package : FilledIn old.package new.package

lemma Retains.trans {a b c : LineageVersion} (hab : Retains a b) (hbc : Retains b c) :
    Retains a c where
  versionUuid := hbc.versionUuid.trans hab.versionUuid
  parents := hbc.parents.trans hab.parents
  identityDigest := hbc.identityDigest.trans hab.identityDigest
  kind := hbc.kind.trans hab.kind
  branchUuid := hbc.branchUuid.trans hab.branchUuid
  sourceVersionUuid := hbc.sourceVersionUuid.trans hab.sourceVersionUuid
  author := hab.author.trans hbc.author
  committer := hab.committer.trans hbc.committer
  package := hab.package.trans hbc.package

/-- A parent link recorded in the lineage. -/
def ParentLink (lineage : ResearchLineage) (child parent : String) : Prop :=
  ∃ version ∈ lineage.versions, version.versionUuid = child ∧ parent ∈ version.parents

/-- Descent along the parent links of the lineage. -/
def Descends (lineage : ResearchLineage) (head ancestor : String) : Prop :=
  Relation.ReflTransGen (ParentLink lineage) head ancestor

/-- The same Branch with another head. -/
def SameCreation (old new : LineageBranch) : Prop :=
  { new with headVersionUuid := old.headVersionUuid } = old

lemma SameCreation.branchUuid {old new : LineageBranch} (h : SameCreation old new) :
    new.branchUuid = old.branchUuid := by
  unfold SameCreation at h
  rw [← h]

lemma SameCreation.trans {a b c : LineageBranch} (hab : SameCreation a b)
    (hbc : SameCreation b c) : SameCreation a c := by
  unfold SameCreation at *
  rw [← hab, ← hbc]

/-- A later lineage holds every record of an earlier one under the same identity, and its heads
descend from the earlier heads. -/
structure Extends (earlier later : ResearchLineage) : Prop where
  versions : ∀ old ∈ earlier.versions, ∃ new ∈ later.versions, Retains old new ∧
    ∀ other ∈ later.versions, other.versionUuid = old.versionUuid → other = new
  branches : ∀ old ∈ earlier.branches, ∃ new ∈ later.branches, SameCreation old new ∧
    Descends later new.headVersionUuid old.headVersionUuid ∧
    ∀ other ∈ later.branches, other.branchUuid = old.branchUuid → other = new
  proposals : ∀ old ∈ earlier.proposals, old ∈ later.proposals ∧
    ∀ other ∈ later.proposals, other.proposalUuid = old.proposalUuid → other = old

lemma Extends.parentLink {earlier later : ResearchLineage} (h : Extends earlier later)
    {child parent : String} (hlink : ParentLink earlier child parent) :
    ParentLink later child parent := by
  obtain ⟨old, hold, hchild, hparent⟩ := hlink
  obtain ⟨new, hnew, hretains, -⟩ := h.versions old hold
  exact ⟨new, hnew, hretains.versionUuid.trans hchild, hretains.parents ▸ hparent⟩

/-- Paths of an earlier lineage are paths of a later one. -/
lemma Extends.descends {earlier later : ResearchLineage} (h : Extends earlier later)
    {head ancestor : String} (hpath : Descends earlier head ancestor) :
    Descends later head ancestor :=
  Relation.ReflTransGen.mono (fun _ _ => h.parentLink) _ _ hpath

/-- Extension is transitive: what a lineage retains, all later ones do. -/
theorem Extends.trans {a b c : ResearchLineage} (hab : Extends a b) (hbc : Extends b c) :
    Extends a c where
  versions := by
    intro old hold
    obtain ⟨middle, hmiddle, hretains, -⟩ := hab.versions old hold
    obtain ⟨new, hnew, hretains', honly⟩ := hbc.versions middle hmiddle
    refine ⟨new, hnew, hretains.trans hretains', ?_⟩
    intro other hother huuid
    exact honly other hother (huuid.trans hretains.versionUuid.symm)
  branches := by
    intro old hold
    obtain ⟨middle, hmiddle, hsame, hpath, -⟩ := hab.branches old hold
    obtain ⟨new, hnew, hsame', hpath', honly⟩ := hbc.branches middle hmiddle
    refine ⟨new, hnew, hsame.trans hsame', hpath'.trans (hbc.descends hpath), ?_⟩
    intro other hother huuid
    exact honly other hother (huuid.trans hsame.branchUuid.symm)
  proposals := by
    intro old hold
    exact hbc.proposals old (hab.proposals old hold).1

instance : Trans Extends Extends Extends := ⟨Extends.trans⟩

/-! ## One accepted publication -/

lemma descends_of_descendsFrom {lineage : ResearchLineage} {head ancestor : String}
    (h : descendsFrom lineage.versions head ancestor = true) : Descends lineage head ancestor := by
  have hfound := StackSearch.exists_reaches_of_search (fun _ => parentsOf_eq_nil) _ h
  obtain ⟨start, hstart, hpath⟩ := hfound
  rw [List.mem_singleton.mp hstart] at hpath
  refine Relation.ReflTransGen.mono ?_ _ _ hpath
  -- a parent found by the lookup is a recorded one
  intro child parent hparent
  unfold parentsOf at hparent
  cases hrecord : versionAt lineage.versions child with
  | none =>
    rw [hrecord] at hparent
    cases hparent
  | some version =>
    rw [hrecord] at hparent
    have hmem := mem_of_recordAt hrecord
    exact ⟨version, hmem.1, hmem.2, hparent⟩

lemma retains_of_validateRetained {old new : LineageVersion} {u : Unit}
    (huuid : new.versionUuid = old.versionUuid) (h : validateRetained old new = .ok u) :
    Retains old new := by
  unfold validateRetained at h
  obtain ⟨_, -, h⟩ := bind_eq_ok_iff.mp h
  have himmutable := not_not.mp (refuseIf_eq_ok_iff.mp h)
  have hfilled : ∀ {α : Type} {published proposed : Option α},
      (if published.isNone then none else proposed) = published → FilledIn published proposed := by
    intro α published proposed hsame
    cases published with
    | none => exact .inl rfl
    | some a => exact .inr hsame
  cases old with
  | mk versionUuid parents identityDigest kind branchUuid source author committer package =>
    rw [LineageVersion.mk.injEq] at himmutable
    obtain ⟨_, hparents, hdigest, hkind, hbranch, hsource, hauthor, hcommitter, hpackage⟩ :=
      himmutable
    exact
      { versionUuid := huuid
        parents := hparents
        identityDigest := hdigest
        kind := hkind
        branchUuid := hbranch
        sourceVersionUuid := hsource
        author := hfilled hauthor
        committer := hfilled hcommitter
        package := hfilled hpackage }

/-- When no Version is removed, each one is retained by a record of the proposed lineage. -/
lemma retained_of_removedVersions {previous next : ResearchLineage}
    (h : removedVersions previous next = .ok []) :
    ∀ old ∈ previous.versions, ∃ new ∈ next.versions, Retains old new := by
  -- what the loop has gone through is retained, or it has something removed
  have hloop : Ends (fun _ => True)
      (fun removed => removed = [] →
        ∀ old ∈ previous.versions, ∃ new ∈ next.versions, Retains old new)
      (removedVersions previous next) := by
    refine Ends.foldlM
      (I := fun done removed => removed = [] →
        ∀ old ∈ done, ∃ new ∈ next.versions, Retains old new) ?_ previous.versions [] [] (by simp)
    intro done removed old hdone
    cases hrecord : versionAt next.versions old.versionUuid with
    | none =>
      refine .ok fun hempty => ?_
      exact absurd hempty (List.append_ne_nil_of_right_ne_nil _ (List.cons_ne_nil _ _))
    | some new =>
      have hmem := mem_of_recordAt hrecord
      show Ends _ _ (validateRetained old new >>= fun _ => .ok removed)
      cases hcheck : validateRetained old new with
      | error e => exact .error trivial
      | ok u =>
        refine .ok fun hempty v hv => ?_
        rcases List.mem_append.mp hv with hv | hv
        · exact hdone hempty v hv
        · rw [List.mem_singleton.mp hv]
          exact ⟨new, hmem.1, retains_of_validateRetained hmem.2 hcheck⟩
  exact hloop.of_ok h rfl

/-- What acceptance of one published Branch gives when its ref is authoritative. -/
lemma branch_of_validateBranch {next : ResearchLineage} {refs authoritativeHeads : List String}
    {old : LineageBranch} {u : Unit} (hauthority : old.refName ∈ authoritativeHeads)
    (h : validateBranch next refs authoritativeHeads false old = .ok u) :
    ∃ new ∈ next.branches, SameCreation old new ∧
      Descends next new.headVersionUuid old.headVersionUuid := by
  unfold validateBranch at h
  cases hrecord : recordAt LineageBranch.branchUuid next.branches old.branchUuid with
  | none =>
    rw [hrecord] at h
    cases h
  | some new =>
    rw [hrecord] at h
    obtain ⟨_, hsame, h⟩ := bind_eq_ok_iff.mp h
    rw [if_neg (not_not.mpr hauthority)] at h
    obtain ⟨_, houtside, hforward⟩ := bind_eq_ok_iff.mp h
    rw [refuseIf_eq_ok_iff] at hsame houtside hforward
    refine ⟨new, (mem_of_recordAt hrecord).1, not_not.mp hsame, ?_⟩
    by_cases hselected : old.refName ∈ refs
    · apply descends_of_descendsFrom
      exact Bool.not_eq_false _ ▸ fun hfalse => hforward ⟨hselected, rfl, hfalse⟩
    · -- a ref outside the commit keeps its head
      have hhead : old.headVersionUuid = new.headVersionUuid :=
        not_not.mp fun hne => houtside ⟨hselected, hne⟩
      rw [hhead]
      exact .refl

/-- An accepted step of the published history: neither rewrite nor prune, every ref of the stored
lineage authoritative. -/
def AcceptedStep (previous next : ResearchLineage) : Prop :=
  ∃ refs authoritativeHeads limits removed,
    (∀ branch ∈ previous.branches, branch.refName ∈ authoritativeHeads) ∧
      validateSnapshotHistoryTransition previous next refs authoritativeHeads false false limits
        = .ok removed

/-- A publication that is accepted extends the lineage. -/
theorem AcceptedStep.extends {previous next : ResearchLineage} (h : AcceptedStep previous next) :
    Extends previous next := by
  obtain ⟨refs, heads, limits, result, hheads, haccepted⟩ := h
  simp only [validateSnapshotHistoryTransition, bind_eq_ok_iff] at haccepted
  obtain ⟨_, -, _, hvalid, _, -, _, -, _, hbranches, removed, hremoved, h⟩ := haccepted
  obtain ⟨_, hprune, _, -, _, hproposals, -⟩ := h
  rw [mapError_eq_ok_iff] at hvalid
  have hkept : removed = [] := not_not.mp fun hne => refuseIf_eq_ok_iff.mp hprune ⟨trivial, hne⟩
  exact
    { versions := by
        intro old hold
        obtain ⟨new, hnew, hretains⟩ := retained_of_removedVersions (hkept ▸ hremoved) old hold
        refine ⟨new, hnew, hretains, ?_⟩
        intro other hother huuid
        exact eq_of_ascending (versions_ascending hvalid) hother hnew
          (huuid.trans hretains.versionUuid.symm)
      branches := by
        intro old hold
        have hchecked := forM_eq_ok_iff.mp hbranches old hold
        obtain ⟨new, hnew, hsame, hpath⟩ := branch_of_validateBranch (hheads old hold) hchecked
        refine ⟨new, hnew, hsame, hpath, ?_⟩
        intro other hother huuid
        exact eq_of_ascending (branches_ascending hvalid) hother hnew
          (huuid.trans hsame.branchUuid.symm)
      proposals := by
        intro old hold
        have hchecked := forM_eq_ok_iff.mp hproposals old hold
        unfold validateProposal at hchecked
        have hold' := (mem_of_recordAt (not_not.mp (refuseIf_eq_ok_iff.mp hchecked))).1
        refine ⟨hold', ?_⟩
        intro other hother huuid
        exact eq_of_ascending (proposals_ascending hvalid) hother hold' huuid }

/-! ## Whole runs -/

/-- Along every run of accepted publications, each lineage extends all the earlier ones. -/
theorem pairwise_extends_of_isChain_acceptedStep (lineages : List ResearchLineage)
    (h : lineages.IsChain AcceptedStep) : lineages.Pairwise Extends :=
  (h.imp fun _ _ => AcceptedStep.extends).pairwise

/-! A repository that publishes a commit, then credits it and commits on top, then merges. -/

/-- A digest of the sample. -/
def sampleDigest : Sha256Digest :=
  { text := "sha256:00000000000000000000000000000000000000000000000000000000000000aa" }

/-- A version of the sample. -/
def sampleVersion (uuid : String) (parents : List String) (author : Option CreditSignature) :
    LineageVersion where
  versionUuid := uuid
  parents
  identityDigest := sampleDigest
  kind := "complete"
  branchUuid := "00000000-0000-7000-8000-00000000000b"
  sourceVersionUuid := none
  author
  committer := none
  package := none

/-- A lineage of the sample, with one branch. -/
def sampleLineage (head : String) (versions : List LineageVersion) : ResearchLineage where
  format := researchLineageFormat
  version := .current
  repository := { owner := "lab", repository := "study" }
  immutableVersion := sampleDigest
  projectUuid := "00000000-0000-7000-8000-00000000000c"
  requirements := [{ capability := researchLineageCapability, major := 2 }]
  capabilities := []
  fork := none
  branches :=
    [{ branchUuid := "00000000-0000-7000-8000-00000000000b"
       refName := "main"
       projectUuid := "00000000-0000-7000-8000-00000000000c"
       headVersionUuid := head
       parentBranchUuid := none
       originVersionUuid := "00000000-0000-7000-8000-000000000001"
       baseVersionUuid := "00000000-0000-7000-8000-000000000001"
       selectionSha256 := sampleDigest
       label := "main" }]
  boundaryAnchors := []
  versions
  proposals := []
  tags := []
  extensions := []

/-- Three publications: a version more each time, and an author filled in. -/
def sampleHistory : List ResearchLineage :=
  let first := "00000000-0000-7000-8000-000000000001"
  let second := "00000000-0000-7000-8000-000000000002"
  let third := "00000000-0000-7000-8000-000000000003"
  let author : CreditSignature := { name := "Ada", email := none, orcid := none }
  [sampleLineage first [sampleVersion first [] none], sampleLineage second
      [sampleVersion first [] (some author), sampleVersion second [first] none],
    sampleLineage third
      [sampleVersion first [] (some author), sampleVersion second [first] none,
        sampleVersion third [second, first] (some author)]]

lemma sampleHistory_accepted : sampleHistory.IsChain AcceptedStep := by
  refine List.isChain_cons_cons.mpr ⟨?_, List.isChain_cons_cons.mpr ⟨?_, .singleton _⟩⟩
  all_goals
    exact ⟨["main"], ["main"], .default, [], by decide +kernel, by decide +kernel⟩

theorem pairwise_extends_sampleHistory :
    sampleHistory.IsChain AcceptedStep ∧ sampleHistory.Pairwise Extends :=
  ⟨sampleHistory_accepted,
    pairwise_extends_of_isChain_acceptedStep sampleHistory sampleHistory_accepted⟩

end GraphForge.HubPublish
