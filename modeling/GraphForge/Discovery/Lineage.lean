import GraphForge.Discovery.Syntax
import GraphForge.Lib.StackSearch

/-!
# Research lineage documents

A lineage lists the published Versions of a repository with their parents, the Branches with their
heads, the Project-origin anchors, the Proposals and the tags. `ResearchLineage.validate` checks the
document as a whole: canonical order of every list, links that resolve, and an acyclic ancestry.
-/

namespace GraphForge.Discovery

open List

open Except (refuseIf)

/-- The format of research lineages. -/
def researchLineageFormat : String := "graphforge-research-lineage/2"

/-! ## Records -/

/-- The origin of a Fork. -/
structure LineageForkOrigin where
  originRepository : RepositoryIdentity
  originProjectUuid : String
  originVersionUuid : String
  originVersionIdentity : Sha256Digest
  originAuthor : Option CreditSignature
  originCommitter : Option CreditSignature
  deriving DecidableEq, Repr

/-- Credit published once stays; absent credit is taken from the verified citation. -/
def fillCredit (published verified : Option CreditSignature) : Option (Option CreditSignature) :=
  match published with
  | none => some verified
  | some signature => if some signature = verified then some (some signature) else none

/-- This citation completed with the credit of `next`, when `next` is the same citation. -/
def LineageForkOrigin.completedBy (origin next : LineageForkOrigin) : Option LineageForkOrigin :=
  if origin.originRepository ≠ next.originRepository
      ∨ origin.originProjectUuid ≠ next.originProjectUuid
      ∨ origin.originVersionUuid ≠ next.originVersionUuid
      ∨ origin.originVersionIdentity ≠ next.originVersionIdentity then none
  else do
    let author ← fillCredit origin.originAuthor next.originAuthor
    let committer ← fillCredit origin.originCommitter next.originCommitter
    return { origin with originAuthor := author, originCommitter := committer }

/-- A branch: its head, the branch and version it came from and what it selected. -/
structure LineageBranch where
  branchUuid : String
  refName : String
  projectUuid : String
  headVersionUuid : String
  parentBranchUuid : Option String
  originVersionUuid : String
  baseVersionUuid : String
  selectionSha256 : Sha256Digest
  label : String
  deriving DecidableEq, Repr

/-- A version outside of the lineage that a branch starts from. -/
structure LineageBoundaryAnchor where
  versionUuid : String
  identityDigest : Sha256Digest
  originBranchUuid : String
  deriving DecidableEq, Repr

/-- A version, its parents and, for a projection, its source. -/
structure LineageVersion where
  versionUuid : String
  parents : List String
  identityDigest : Sha256Digest
  kind : String
  branchUuid : String
  sourceVersionUuid : Option String
  author : Option CreditSignature
  committer : Option CreditSignature
  package : Option PortablePackageReference
  deriving DecidableEq, Repr

/-- A name for a version. -/
structure LineageTag where
  name : String
  versionUuid : String
  deriving DecidableEq, Repr

/-- A version of a branch that is proposed, and the payload that carries it. -/
structure LineageProposal where
  proposalUuid : String
  sourceBranchUuid : String
  sourceVersionUuid : String
  payloadVersionUuid : String
  package : PortablePackageReference
  deriving DecidableEq, Repr

/-- `ResearchLineage`, as it is received. -/
structure ResearchLineage where
  format : String
  version : ProtocolVersion
  repository : RepositoryIdentity
  immutableVersion : Sha256Digest
  projectUuid : String
  requirements : List ProtocolCapability
  capabilities : List ProtocolCapability
  fork : Option LineageForkOrigin
  branches : List LineageBranch
  boundaryAnchors : List LineageBoundaryAnchor
  versions : List LineageVersion
  proposals : List LineageProposal
  tags : List LineageTag
  extensions : List (String × ExtensionValue)

/-! ## Maps collected from a list of records -/

/-- The record a map collected from `records` holds at a key: a later one replaces an earlier. -/
def recordAt {α : Type} (key : α → String) (records : List α) (id : String) : Option α :=
  records.reverse.find? fun record => key record = id

/-- A record that is found is one of the records, under the identifier. -/
lemma mem_of_recordAt {α : Type} {key : α → String} {records : List α} {id : String} {record : α}
    (h : recordAt key records id = some record) : record ∈ records ∧ key record = id := by
  refine ⟨mem_reverse.mp (mem_of_find?_eq_some h), ?_⟩
  simpa using find?_some h

variable (versions : List LineageVersion)

/-- `version_ids`, and the `Versions` of a history check. -/
abbrev versionAt (id : String) : Option LineageVersion :=
  recordAt LineageVersion.versionUuid versions id

/-- The parents a lineage records for a Version; an identity without a record has none. -/
def parentsOf (id : String) : List String :=
  match versionAt versions id with
  | some version => version.parents
  | none => []

/-- An identifier without a version has no parents. -/
lemma parentsOf_eq_nil {versions : List LineageVersion} {id : String}
    (h : id ∉ versions.map LineageVersion.versionUuid) : parentsOf versions id = [] := by
  unfold parentsOf
  cases hrecord : versionAt versions id with
  | none => rfl
  | some version =>
    have hmem := mem_of_recordAt hrecord
    exact absurd (hmem.2 ▸ mem_map_of_mem hmem.1) h

/-! ## Acyclic ancestry -/

/-- The state of `validate_parent_graph`: entries of the stack say whether they leave the node. -/
structure ParentWalk where
  stack : List (String × Bool)
  visiting : List String
  done : List String
  expanded : ℕ

/-- The error of a version that is its own ancestor. -/
def ancestryCyclic : DiscoveryError :=
  { code := .integrityFailure, field := some "versions.parents",
    detail := "Version ancestry is cyclic" }

/-- One round of the walk. -/
def parentWalkBody (walk : ParentWalk → Except DiscoveryError (List String × ℕ)) (w : ParentWalk) :
    Except DiscoveryError (List String × ℕ) :=
  match w.stack with
  | [] => .ok (w.done, w.expanded)
  | (id, true) :: stack =>
    walk { w with stack, visiting := w.visiting.filter (· ≠ id), done := id :: w.done }
  | (id, false) :: stack =>
    if id ∈ w.done then walk { w with stack }
    else if id ∈ w.visiting then .error ancestryCyclic
    else
      match versionAt versions id with
      | some record =>
        walk
          { w with
            stack := (record.parents.map (·, false)).reverse ++ (id, true) :: stack,
            visiting := id :: w.visiting, expanded := w.expanded + 1 }
      | none => walk { w with stack := (id, true) :: stack, visiting := id :: w.visiting }

/-- An entry that enters its node is worth one more round than one that leaves it. -/
def entryRounds (entry : String × Bool) : ℕ := if entry.2 then 1 else 2

/-- Rounds still to be paid by the parents of nodes not visited. -/
def unvisited (visiting done : List String) : ℕ :=
  StackSearch.weight versions (fun version => 2 * version.parents.length)
    (fun version => decide (version.versionUuid ∉ visiting ∧ version.versionUuid ∉ done))

/-- The rounds that the walk can still take. -/
def ParentWalk.rounds (w : ParentWalk) : ℕ :=
  (w.stack.map entryRounds).sum + unvisited versions w.visiting w.done

/-- The loop over the stack, which ends within its rounds. -/
def parentWalk (w : ParentWalk) : Except DiscoveryError (List String × ℕ) :=
  MeasuredFix.fix (ParentWalk.rounds versions) (parentWalkBody versions) w

section ParentWalk

variable {versions : List LineageVersion} {id : String} {visiting done : List String}

/-- Fewer versions are unvisited when more are visited. -/
lemma unvisited_mono {visiting' done' : List String}
    (h : ∀ v, v ∉ visiting' ∧ v ∉ done' → v ∉ visiting ∧ v ∉ done) :
    unvisited versions visiting' done' ≤ unvisited versions visiting done :=
  StackSearch.weight_mono _ fun _ _ hq => decide_eq_true (h _ (of_decide_eq_true hq))

/-- The record of a node pays for its parents once. -/
lemma unvisited_expand_le {record : LineageVersion} (hrecord : versionAt versions id = some record)
    (hvisiting : id ∉ visiting) (hdone : id ∉ done) :
    2 * record.parents.length + unvisited versions (id :: visiting) done
      ≤ unvisited versions visiting done := by
  obtain ⟨hmem, rfl⟩ := mem_of_recordAt hrecord
  refine StackSearch.cost_add_weight_le (fun version => 2 * version.parents.length) ?_ hmem ?_ ?_
  · simp only [decide_eq_true_eq, mem_cons, not_or]
    exact fun version _ hq => ⟨hq.1.2, hq.2⟩
  · exact decide_eq_true ⟨hvisiting, hdone⟩
  · simp

lemma sum_entryRounds_enter (parents : List String) :
    ((parents.map (·, false)).map entryRounds).sum = 2 * parents.length := by
  rw [map_map]
  show (parents.map fun _ => 2).sum = 2 * parents.length
  rw [map_const', sum_const_nat, Nat.mul_comm]

/-- Each round leaves a walk with fewer rounds. -/
lemma guarded_parentWalkBody :
    MeasuredFix.Guarded (ParentWalk.rounds versions) (parentWalkBody versions) := by
  intro f g ⟨stack, visiting, done, expanded⟩ hfg
  unfold parentWalkBody
  cases stack with
  | nil => rfl
  | cons entry stack =>
    obtain ⟨id, exiting⟩ := entry
    cases exiting with
    | true =>
      apply hfg
      have hleave : unvisited versions (visiting.filter (· ≠ id)) (id :: done)
          ≤ unvisited versions visiting done := unvisited_mono (by grind)
      simp only [ParentWalk.rounds, map_cons, sum_cons, entryRounds]
      grind
    | false =>
      dsimp only
      split_ifs with hdone hvisiting
      · exact hfg _ (by simp [ParentWalk.rounds, entryRounds])
      · rfl
      cases hrecord : versionAt versions id with
      | none =>
        apply hfg
        have henter : unvisited versions (id :: visiting) done
            ≤ unvisited versions visiting done := unvisited_mono (by grind)
        simp only [ParentWalk.rounds, map_cons, sum_cons, entryRounds]
        grind
      | some record =>
        apply hfg
        have hexpand := unvisited_expand_le hrecord hvisiting hdone
        have hparents := sum_entryRounds_enter record.parents
        simp only [ParentWalk.rounds, map_append, map_reverse, sum_append, sum_reverse, hparents,
          map_cons, sum_cons, entryRounds]
        grind

/-- The equation of the loop: the bound on its rounds is never met. -/
theorem parentWalk_eq (w : ParentWalk) :
    parentWalk versions w = parentWalkBody versions (parentWalk versions) w :=
  MeasuredFix.fix_eq _ guarded_parentWalkBody w

end ParentWalk

/-- Walk the ancestry from every Version; the records expanded are counted. -/
def validateParentGraph : Except DiscoveryError ℕ := do
  let (_, expanded) ← versions.foldlM
    (fun (done, expanded) start =>
      parentWalk versions
        { stack := [(start.versionUuid, false)], visiting := [], done, expanded })
    ([], 0)
  return expanded

/-! ## Validation of the document -/

/-- Credit signatures of a record that are present. -/
def validateCredit (signatures : List (Option CreditSignature)) (field : String) :
    Except DiscoveryError Unit :=
  signatures.forM fun signature =>
    match signature with
    | none => .ok ()
    | some signature => signature.validate field

/-- The origin of a fork. -/
def validateFork (fork : LineageForkOrigin) (limits : DiscoveryLimits) :
    Except DiscoveryError Unit := do
  fork.originRepository.validate
  checkUuid fork.originProjectUuid "fork.origin_project_uuid" limits
  checkUuid fork.originVersionUuid "fork.origin_version_uuid" limits
  fork.originVersionIdentity.validate
  validateCredit [fork.originAuthor, fork.originCommitter] "fork.origin_credit"

/-- The error of records that are repeated or out of order. -/
def notOrdered (field : String) : DiscoveryError :=
  { code := .duplicate, field := some field,
    detail := "entries are duplicated or not canonically ordered" }

/-- `prior.is_some_and(|name| name >= current)`. -/
def priorNotBelow (prior : Option String) (current : String) : Prop :=
  ∃ name ∈ prior, current ≤ name

instance (prior : Option String) (current : String) : Decidable (priorNotBelow prior current) :=
  inferInstanceAs (Decidable (∃ name ∈ prior, current ≤ name))

/-- What the loop over the Branches carries: the last UUID and the ref names so far. -/
structure BranchScan where
  prior : Option String
  branchRefs : List String

/-- The fields of a branch, in the order of the source. -/
def LineageBranch.checkFields (branch : LineageBranch) (limits : DiscoveryLimits) :
    Except DiscoveryError Unit := do
  checkUuid branch.branchUuid "branches.branch_uuid" limits
  validateRefName branch.refName limits
  checkUuid branch.projectUuid "branches.project_uuid" limits
  checkUuid branch.headVersionUuid "branches.head_version_uuid" limits
  branch.parentBranchUuid.toList.forM fun parent =>
    checkUuid parent "branches.parent_branch_uuid" limits
  checkUuid branch.originVersionUuid "branches.origin_version_uuid" limits
  checkUuid branch.baseVersionUuid "branches.base_version_uuid" limits
  branch.selectionSha256.validate
  checkString branch.label "branches.label" limits

/-- One branch: its fields, its place in the order, and a ref name that is new. -/
def validateBranch (limits : DiscoveryLimits) (scan : BranchScan) (branch : LineageBranch) :
    Except DiscoveryError BranchScan := do
  branch.checkFields limits
  refuseIf (priorNotBelow scan.prior branch.branchUuid) (notOrdered "branches")
  refuseIf (branch.refName ∈ scan.branchRefs)
    { code := .duplicate, field := some "branches.ref_name",
      detail := "branch ref names are duplicated" }
  return { prior := some branch.branchUuid, branchRefs := branch.refName :: scan.branchRefs }

/-- The kinds of versions. -/
def versionKinds : List String := ["complete", "projection"]

/-- A projection names another Version as its source, a complete Version none. -/
def validateSource (version : LineageVersion) (limits : DiscoveryLimits) :
    Except DiscoveryError Unit :=
  let field := "versions.source_version_uuid"
  if version.kind = "projection" then
    match version.sourceVersionUuid with
    | none => .error (malformedField field "projection requires a source Version")
    | some source => do
      checkUuid source field limits
      refuseIf (source = version.versionUuid)
        (malformedField field "projection must not cite itself as its source Version")
  else
    refuseIf (version.sourceVersionUuid.isSome)
      (malformedField field "complete Version must not name a projection source")

/-- The fields of a version, in the order of the source. -/
def LineageVersion.checkFields (version : LineageVersion) (limits : DiscoveryLimits) :
    Except DiscoveryError Unit := do
  checkUuid version.versionUuid "versions.version_uuid" limits
  version.identityDigest.validate
  refuseIf (version.kind ∉ versionKinds)
    (malformedField "versions.kind" "research version kind is unknown")
  checkUuid version.branchUuid "versions.branch_uuid" limits
  validateCredit [version.author, version.committer] "versions.credit"
  validateSource version limits
  version.package.toList.forM fun package =>
    validatePackageReference package "versions.package" limits

/-- One version: its fields and its place in the order. -/
def validateVersion (limits : DiscoveryLimits) (prior : Option String) (version : LineageVersion) :
    Except DiscoveryError (Option String) := do
  version.checkFields limits
  refuseIf (priorNotBelow prior version.versionUuid) (notOrdered "versions")
  return some version.versionUuid

/-- One tag, which names a version of the lineage. -/
def validateTag (limits : DiscoveryLimits) (prior : Option String) (tag : LineageTag) :
    Except DiscoveryError (Option String) := do
  validateRefName tag.name limits
  checkUuid tag.versionUuid "tags.version_uuid" limits
  refuseIf (priorNotBelow prior tag.name) (notOrdered "tags")
  refuseIf ((versionAt versions tag.versionUuid).isNone)
    { code := .integrityFailure, field := some "tags",
      detail := "tag names a Version absent from the lineage" }
  return some tag.name

/-- The errors of boundary anchors. -/
def anchorFailure (detail : String) : DiscoveryError :=
  { code := .integrityFailure, field := some "boundary_anchors", detail }

variable (branches : List LineageBranch)

/-- One anchor, which is no version of the lineage and the origin of its branch. -/
def validateAnchor (limits : DiscoveryLimits) (prior : Option String)
    (anchor : LineageBoundaryAnchor) : Except DiscoveryError (Option String) := do
  checkUuid anchor.versionUuid "boundary_anchors.version_uuid" limits
  checkUuid anchor.originBranchUuid "boundary_anchors.origin_branch_uuid" limits
  anchor.identityDigest.validate
  refuseIf ((versionAt versions anchor.versionUuid).isSome ∨ priorNotBelow prior anchor.versionUuid)
    (anchorFailure "boundary anchor overlaps native records or is unordered")
  refuseIf
    ((branches.find? fun branch => branch.branchUuid = anchor.originBranchUuid).any fun branch =>
      branch.parentBranchUuid.isSome || branch.originVersionUuid != anchor.versionUuid)
    (anchorFailure "boundary anchor differs from Branch origin")
  return some anchor.versionUuid

/-- The parents of one Version: few, distinct, recorded or anchored, and not the Version itself. -/
def validateParents (anchors : List LineageBoundaryAnchor) (limits : DiscoveryLimits)
    (version : LineageVersion) : Except DiscoveryError Unit := do
  refuseIf (8 < version.parents.length) (limitExceeded "versions.parents")
  let _ ← version.parents.foldlM
    (fun (seen : List String) parent => do
      checkUuid parent "versions.parents" limits
      refuseIf
        (parent = version.versionUuid ∨ parent ∈ seen ∨ ((versionAt versions parent).isNone ∧
            (recordAt LineageBoundaryAnchor.versionUuid anchors parent).isNone))
        { code := .integrityFailure, field := some "versions.parents",
          detail := "Version parent is duplicated, unknown or itself" }
      return parent :: seen)
    []

/-- What a Proposal says about its payload, its package and its source Branch. -/
def validatePayload (proposal : LineageProposal) : Except DiscoveryError Unit :=
  match versionAt versions proposal.payloadVersionUuid with
  | none =>
    .error (malformedField "proposals.payload_version_uuid"
      "proposal payload Version is absent from versions")
  | some payload => do
    refuseIf (payload.kind ≠ "projection")
      (malformedField "proposals.payload_version_uuid"
        "proposal payload is not a projection Version")
    refuseIf (payload.sourceVersionUuid ≠ some proposal.sourceVersionUuid)
      (malformedField "proposals.source_version_uuid"
        "proposal source Version disagrees with its payload projection")
    refuseIf (payload.package.any (· ≠ proposal.package))
      (malformedField "proposals.package"
        "proposal package disagrees with its payload Version package")
    refuseIf (proposal.sourceBranchUuid ∉ branches.map LineageBranch.branchUuid)
      (malformedField "proposals.source_branch_uuid"
        "proposal source Branch is absent from branches")

/-- The fields of a proposal, in the order of the source. -/
def LineageProposal.checkFields (proposal : LineageProposal) (limits : DiscoveryLimits) :
    Except DiscoveryError Unit := do
  checkUuid proposal.proposalUuid "proposals.proposal_uuid" limits
  checkUuid proposal.sourceBranchUuid "proposals.source_branch_uuid" limits
  checkUuid proposal.sourceVersionUuid "proposals.source_version_uuid" limits
  checkUuid proposal.payloadVersionUuid "proposals.payload_version_uuid" limits
  validatePackageReference proposal.package "proposals.package" limits

/-- One proposal: its fields, its place in the order and its payload. -/
def validateProposal (limits : DiscoveryLimits) (prior : Option String) (proposal : LineageProposal) :
    Except DiscoveryError (Option String) := do
  proposal.checkFields limits
  refuseIf (priorNotBelow prior proposal.proposalUuid) (notOrdered "proposals")
  validatePayload versions branches proposal
  return some proposal.proposalUuid

variable (lineage : ResearchLineage)

/-- The header: format, required semantics, identity, extensions and the Fork citation. -/
def ResearchLineage.validateHeader (limits : DiscoveryLimits) : Except DiscoveryError Unit := do
  let error : DiscoveryError :=
    { code := .unsupportedFuture, field := some "format",
      detail := "research lineage format is unsupported" }
  refuseIf (lineage.format ≠ researchLineageFormat)
    (match formatMajor lineage.format "graphforge-research-lineage" with
      | some requestedMajor =>
        error.withVersion { subject := .researchLineage, supportedMajor := some 2, requestedMajor }
      | none => error)
  lineage.version.validate
  validateSemantics lineage.requirements lineage.capabilities researchLineageCapability limits
  refuseIf
    (¬ lineage.requirements.any fun r => r.capability = researchLineageCapability && r.major = 2)
    { code := .unsupportedFuture, field := some "requirements",
      detail := "research lineage 2 is required" }
  lineage.repository.validate
  lineage.immutableVersion.validate
  checkUuid lineage.projectUuid "project_uuid" limits
  validateExtensions lineage.extensions limits
  lineage.fork.toList.forM fun fork => validateFork fork limits

/-- No family of records is over the limit. -/
def ResearchLineage.validateCounts (limits : DiscoveryLimits) : Except DiscoveryError Unit := do
  refuseIf (limits.maxLineageEntries < lineage.branches.length) (limitExceeded "branches")
  refuseIf (limits.maxLineageEntries < lineage.boundaryAnchors.length)
    (limitExceeded "boundary_anchors")
  refuseIf (limits.maxLineageEntries < lineage.versions.length) (limitExceeded "versions")
  refuseIf (limits.maxLineageEntries < lineage.proposals.length) (limitExceeded "proposals")
  refuseIf (limits.maxLineageEntries < lineage.tags.length) (limitExceeded "tags")

/-- The checks of the lists of records, in the order of the source. -/
def ResearchLineage.validateRecords (limits : DiscoveryLimits) : Except DiscoveryError Unit := do
  let _ ← lineage.branches.foldlM (validateBranch limits) { prior := none, branchRefs := [] }
  let _ ← lineage.versions.foldlM (validateVersion limits) none
  let _ ← lineage.tags.foldlM (validateTag lineage.versions limits) none
  let _ ← lineage.boundaryAnchors.foldlM
    (validateAnchor lineage.versions lineage.branches limits) none
  refuseIf
    (lineage.boundaryAnchors.any fun anchor =>
      !lineage.versions.any fun version => version.parents.contains anchor.versionUuid)
    (anchorFailure "Project-origin anchor is outside the parent closure")
  lineage.versions.forM (validateParents lineage.versions lineage.boundaryAnchors limits)
  let _ ← validateParentGraph lineage.versions
  let _ ← lineage.proposals.foldlM
    (validateProposal lineage.versions lineage.branches limits) none
  lineage.branches.forM fun branch =>
    refuseIf ((versionAt lineage.versions branch.headVersionUuid).isNone)
      (malformedField "branches.head_version_uuid" "branch head Version is absent from versions")

/-- `ResearchLineage::validate`: header, counts, records. -/
def ResearchLineage.validate (limits : DiscoveryLimits) : Except DiscoveryError Unit := do
  lineage.validateHeader limits
  lineage.validateCounts limits
  lineage.validateRecords limits

end GraphForge.Discovery
