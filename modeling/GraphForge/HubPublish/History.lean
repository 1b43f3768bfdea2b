import GraphForge.Discovery.Lineage

/-!
# Admission of a new lineage

The Hub compares the lineage a publication proposes with the one it has stored. Nothing published
may change: Branch creation records, Versions and Proposals stay as they are, except that a package
or credit may be supplied where none was published. Heads move only forward along parent links
unless a rewrite is asked for, and Versions disappear only under a prune.
-/

namespace GraphForge.HubPublish

open Except (refuseIf)
open Discovery

/-- What a publication error is about. -/
inductive HubPublishErrorCode
  | authDenied
  | entitlementDenied
  | visibilityMismatch
  | idempotencyConflict
  | refConflict
  | nonFastForward
  | idTaken
  | unsupportedFuture
  | integrityFailure
  | invalidInput
  | internal
  deriving DecidableEq, Repr, Inhabited

/-- An error: its code and a text. -/
structure HubPublishError where
  code : HubPublishErrorCode
  detail : String
  deriving DecidableEq, Repr, Inhabited

/-- `invalid(detail)`. -/
def invalidInput (detail : String) : HubPublishError := { code := .invalidInput, detail }

/-- The most refs that a publication advances. -/
def maxRefsPerCommit : ℕ := 64

/-- `validate_ref_list`. -/
def validateRefList (refs : List String) : Except HubPublishError Unit := do
  refuseIf (refs = [] ∨ maxRefsPerCommit < refs.length)
    (invalidInput "commit must advance between 1 and 64 refs")
  refuseIf ((refs.zip refs.tail).any fun (former, latter) => decide (latter ≤ former))
    (invalidInput "refs are duplicated or not ascending")

/-- Whether `head` is `ancestor` or has it among its ancestors. -/
def descendsFrom (versions : List LineageVersion) (head ancestor : String) : Bool :=
  StackSearch.search (versions.map LineageVersion.versionUuid) (parentsOf versions) ancestor
    { pending := [head], seen := [] }

/-- A Fork citation is unchanged, or only completed with credit. -/
def sameFork (previous next : Option LineageForkOrigin) : Prop :=
  match previous, next with
  | none, none => True
  | some published, some proposed => published.completedBy proposed = some proposed
  | _, _ => False

instance (previous next : Option LineageForkOrigin) : Decidable (sameFork previous next) :=
  match previous, next with
  | none, none => inferInstanceAs (Decidable True)
  | some published, some proposed =>
    inferInstanceAs (Decidable (published.completedBy proposed = some proposed))
  | none, some _ => inferInstanceAs (Decidable False)
  | some _, none => inferInstanceAs (Decidable False)

variable (next : ResearchLineage)

/-- One published Branch against the proposed lineage. -/
def validateBranch (refs authoritativeHeads : List String) (rewrite : Bool) (old : LineageBranch) :
    Except HubPublishError Unit :=
  match recordAt LineageBranch.branchUuid next.branches old.branchUuid with
  | none => .error (invalidInput "publication removes a published Branch")
  | some new => do
    refuseIf ({ new with headVersionUuid := old.headVersionUuid } ≠ old)
      (invalidInput "publication changes immutable Branch creation authority")
    -- a historical shadow of a Branch gives no authority over its ref
    if old.refName ∉ authoritativeHeads then .ok ()
    else
      refuseIf (old.refName ∉ refs ∧ old.headVersionUuid ≠ new.headVersionUuid)
        (invalidInput "publication changes a ref outside the committed ref set")
      refuseIf
        (old.refName ∈ refs ∧ rewrite = false ∧
          descendsFrom next.versions new.headVersionUuid old.headVersionUuid = false)
        { code := .nonFastForward, detail := "publication is not a structural fast-forward" }

/-- Every earlier branch is checked against the next lineage. -/
def validateBranches (previous next : ResearchLineage) (refs authoritativeHeads : List String)
    (rewrite : Bool) : Except HubPublishError Unit :=
  previous.branches.forM (validateBranch next refs authoritativeHeads rewrite)

/-- A published Version against its record in the proposed lineage. What was not published is left
out of the comparison. -/
def validateRetained (old new : LineageVersion) : Except HubPublishError Unit := do
  refuseIf (old.package.isSome ∧ new.package.isNone)
    (invalidInput "publication removes the published package of a retained Version")
  let immutable : LineageVersion :=
    { new with
      package := if old.package.isNone then none else new.package
      author := if old.author.isNone then none else new.author
      committer := if old.committer.isNone then none else new.committer }
  refuseIf (immutable ≠ old)
    (invalidInput "publication changes immutable Version history or payload")

/-- The Versions that the proposed lineage no longer has. -/
def removedVersions (previous next : ResearchLineage) : Except HubPublishError (List String) :=
  previous.versions.foldlM
    (fun removed old =>
      match versionAt next.versions old.versionUuid with
      | some new => do
        validateRetained old new
        return removed
      | none => .ok (removed ++ [old.versionUuid]))
    []

/-- One earlier anchor: kept, or now a version, or pruned. -/
def validateAnchor (prune : Bool) (old : LineageBoundaryAnchor) : Except HubPublishError Unit :=
  match recordAt LineageBoundaryAnchor.versionUuid next.boundaryAnchors old.versionUuid,
    versionAt next.versions old.versionUuid with
  | some new, _ =>
    refuseIf (old ≠ new) (invalidInput "publication changes a Project-origin anchor")
  | none, some record =>
    refuseIf (record.identityDigest ≠ old.identityDigest ∨ record.parents ≠ [])
      (invalidInput "publication changes a Project-origin identity")
  | none, none =>
    refuseIf (prune = false)
      (invalidInput "removing Project-origin anchors requires explicit prune intent")

/-- The identities the proposed lineage still depends on. -/
def protectedIds : List String :=
  next.branches.flatMap (fun b => [b.headVersionUuid, b.baseVersionUuid, b.originVersionUuid])
    ++ next.proposals.flatMap (fun p => [p.sourceVersionUuid, p.payloadVersionUuid])
    ++ next.versions.flatMap (fun v => v.parents ++ v.sourceVersionUuid.toList)
    ++ next.boundaryAnchors.map LineageBoundaryAnchor.versionUuid

/-- What is retained depends on nothing that is removed. -/
def validateDependencies (removed : List String) : Except HubPublishError Unit :=
  refuseIf ((protectedIds next).any (removed.contains ·))
    (invalidInput
      "prune would remove a retained Branch, Proposal, projection or history dependency")

/-- One earlier proposal, which is kept as it is. -/
def validateProposal (old : LineageProposal) : Except HubPublishError Unit :=
  refuseIf (recordAt LineageProposal.proposalUuid next.proposals old.proposalUuid ≠ some old)
    (invalidInput "publication changes a published Proposal")

/-- Anchors that are neither anchors nor Versions of the proposed lineage. -/
def removedAnchors (previous next : ResearchLineage) : List String :=
  (previous.boundaryAnchors.filter fun anchor =>
    !(next.boundaryAnchors.map LineageBoundaryAnchor.versionUuid).contains anchor.versionUuid &&
      (versionAt next.versions anchor.versionUuid).isNone).map LineageBoundaryAnchor.versionUuid

/-- Admit a proposed lineage after the stored one; the result is the list of removed Versions. -/
def validateSnapshotHistoryTransition (previous next : ResearchLineage)
    (refs authoritativeHeads : List String) (rewrite prune : Bool) (limits : DiscoveryLimits) :
    Except HubPublishError (List String) := do
  (previous.validate limits).mapError fun _ => invalidInput "stored research lineage is invalid"
  (next.validate limits).mapError fun _ => invalidInput "proposed research lineage is invalid"
  validateRefList refs
  refuseIf
    (previous.repository ≠ next.repository ∨ previous.projectUuid ≠ next.projectUuid ∨
      ¬ sameFork previous.fork next.fork)
    (invalidInput "publication changes repository or research origin authority")
  validateBranches previous next refs authoritativeHeads rewrite
  let removed ← removedVersions previous next
  refuseIf (prune = false ∧ removed ≠ [])
    (invalidInput "removing published Versions requires explicit prune intent")
  previous.boundaryAnchors.forM (validateAnchor next prune)
  previous.proposals.forM (validateProposal next)
  validateDependencies next (removed ++ removedAnchors previous next)
  return removed

end GraphForge.HubPublish
