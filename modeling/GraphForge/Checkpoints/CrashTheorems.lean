import GraphForge.Checkpoints.RecoveryTheorems

/-!
# Registry commits under crashes

Commits and recoveries follow each other in any order, and each may be cut after any of its steps.
As long as the directories they leave are recoverable, every call is atomic. There is one way out of
these directories: a cut at which the staged pair of an unfinished commit is gone and its intent is
not. From there recovery fails.
-/

namespace GraphForge.Checkpoints

open List

open Except (refuseIf bind_eq_ok_iff refuseIf_eq_ok_iff refuseIf_of_not ok_bind)
open CrashFs

/-! ## Calls that may be cut -/

section Calls

variable (host : Host)

/-- A call of the registry code, cut after a number of steps or run to its return. -/
inductive Call where
  | commit (registry : Registry) (uuid : Uuid) (cut : Option ℕ)
  | recover (cut : Option ℕ)

/-- The directory a program leaves. -/
def leave (x : Fs Unit) (cut : Option ℕ) (d : Directory) : Directory :=
  match cut with
  | none => x.final d
  | some n => x.cut n d

variable (d : Directory)

/-- The directory a call leaves. -/
def Call.exec : Call → Directory
  | .commit registry uuid cut => leave (commitRegistry host registry uuid) cut d
  | .recover cut => leave (recoverPair host) cut d

/-- The directory after a sequence of calls on a new one. -/
def runCalls (calls : List Call) : Directory := calls.foldl (Call.exec host) fun _ => none

/-- The commits of a sequence of calls. -/
def commitsOf (calls : List Call) : List (Registry × Uuid) :=
  calls.filterMap fun call =>
    match call with
    | .commit registry uuid _ => some (registry, uuid)
    | .recover _ => none

/-- What the next recovery makes of the directory, and the registry that is read after it. -/
def recovered : Except GfError Registry := do
  ((recoverPair host).run d).2
  readRegistry host ((recoverPair host).final d)

/-- The registries before and after a call. A commit may take effect or not; one that has returned
has taken effect. -/
def Call.Yields (before after : Registry) : Call → Prop
  | .commit registry uuid cut =>
    (after = before ∨ after = registry) ∧
      (cut = none → ((commitRegistry host registry uuid).run d).2 = .ok () → after = registry)
  | .recover _ => after = before

/-- A call is atomic: recovery succeeds before and after it and reads the registries it may yield,
and to recover again changes nothing. -/
def AtomicCall (call : Call) : Prop :=
  ∃ before after, recovered host d = .ok before ∧ recovered host (call.exec host d) = .ok after ∧
    call.Yields host d before after ∧
    (recoverPair host).run ((recoverPair host).final (call.exec host d)) = ([], .ok ())

/-- Every call of the sequence is atomic where it is made. -/
def AtomicRun (calls : List Call) : Prop :=
  ∀ done call rest, calls = done ++ call :: rest → AtomicCall host (runCalls host done) call

/-! ## Losing the staged pair -/

/-- The call is cut where the staged pair of an unfinished commit is gone and its intent is not:
a recovery after it has removed a staged file and before it has removed the intent, or a commit
under the same transaction after it has removed a staged file and before it has staged the same
registry again or replaced the intent. -/
def LosesStaged (call : Call) : Prop :=
  ∃ intent, RollsBack host d intent ∧
    match call with
    | .recover cut => ∃ n, cut = some n ∧ 0 < n ∧ n < 3
    | .commit registry uuid cut =>
      uuid = intent.transactionUuid ∧ ∃ n next previous,
        cut = some n ∧ canonicalBytes host registry = .ok next ∧
          readValidPair host d = .ok previous ∧ 0 < n ∧
          (n < (stagingSteps host d uuid next).length ∨ (n ≤ (stagingSteps host d uuid next).length
                + (intentSteps host d (intentFor host previous uuid registry next)).length ∧
              ¬ (registry.revision = intent.nextRevision ∧
                hex (host.sha256 next) = intent.nextSha256)))

end Calls

section Atomic

variable {host : Host} {commits : List (Registry × Uuid)} {d : Directory} {pair : Option Registry}
  {intent : RegistryIntent} {registry : Registry} {uuid : Uuid}

/-- What a recoverable directory is worth to its next reader. -/
lemma recovered_of_recoverable (hserde : host.RoundTrips commits)
    (h : Recoverable host commits d pair) :
    recovered host d = .ok (pair.getD Registry.empty) ∧
      (recoverPair host).run ((recoverPair host).final d) = ([], .ok ()) := by
  obtain ⟨steps, hrun, hintent, hpair⟩ := exists_recoverPair_of_recoverable hserde h
  have hfinal : (recoverPair host).final d = applyAll d steps := by
    unfold Program.final
    rw [hrun]
  constructor
  · unfold recovered
    rw [hrun, hfinal]
    exact readRegistry_of_pairIs hserde hpair
  · rw [hfinal]
    exact recoverPair_of_idle hserde hintent hpair

/-! ### Cutting a recovery -/

/-- A cleanup of a directory with its pair in place, cut anywhere but between the removal of the
staged files and that of the intent. -/
lemma recoverable_take_cleanup_of_replaced (hintent : readIntent host d = .ok intent)
    (hnext : Announces host intent registry) (hpair : PairIs host commits d (some registry)) (n : ℕ) :
    Recoverable host commits (applyAll d ((cleanupSteps d intent.transactionUuid).take n))
      (some registry) := by
  by_cases hn : n < (cleanupSteps d intent.transactionUuid).length
  · apply Recoverable.replaced _ hnext (hpair.take_cleanup _ _ n)
    rw [readIntent_congr (applyAll_take_cleanupSteps_intent hn)]
    exact hintent
  · rw [take_of_length_le (not_lt.mp hn)]
    exact .idle applyAll_cleanupSteps_intent (hpair.cleanup _ _)

/-- Cleaning up a staged pair takes three steps. -/
lemma StagedIs.length_cleanupSteps (h : StagedIs host commits d uuid registry) :
    (cleanupSteps d uuid).length = 3 := by
  unfold cleanupSteps unlinkSteps
  rw [h.json, h.sha256]
  rfl

/-- A recovery keeps the directory recoverable to the same pair. -/
theorem recoverable_recover (hserde : host.RoundTrips commits)
    (h : Recoverable host commits d pair) {cut : Option ℕ}
    (hkeeps : ¬ LosesStaged host d (.recover cut)) :
    Recoverable host commits (leave (recoverPair host) cut d) pair := by
  cases cut with
  | none =>
    obtain ⟨steps, hrun, hintent, hpair⟩ := exists_recoverPair_of_recoverable hserde h
    show Recoverable host commits (applyAll d ((recoverPair host).run d).1) pair
    rw [hrun]
    exact .idle hintent hpair
  | some n =>
    show Recoverable host commits (applyAll d (((recoverPair host).run d).1.take n)) pair
    cases h with
    | idle hintent hpair =>
      rw [recoverPair_of_idle hserde hintent hpair, take_nil]
      exact .idle hintent hpair
    | replaced hintent hnext hpair =>
      rw [recoverPair_of_replaced hserde hintent hnext hpair]
      exact recoverable_take_cleanup_of_replaced hintent hnext hpair n
    | staged hintent hpair hrevision hdigest hother hnext hstaged =>
      have hrolls :=
        rollsBack_of_staged hserde hintent hpair hrevision hdigest hother hnext hstaged
      rw [hrolls.recoverPair_eq]
      have hlength := hstaged.length_cleanupSteps
      have hwindow : ¬ (0 < n ∧ n < 3) := fun hn => hkeeps ⟨_, hrolls, n, rfl, hn.1, hn.2⟩
      by_cases hzero : n = 0
      · rw [hzero, take_zero]
        exact .staged hintent hpair hrevision hdigest hother hnext hstaged
      · rw [take_of_length_le (hlength ▸ by omega)]
        exact .idle applyAll_cleanupSteps_intent (hpair.cleanup _ _)
    | half hintent hnext hcommitted hregistry hchecksum hstaged =>
      rw [recoverPair_of_half hserde hintent hnext hcommitted hregistry hchecksum hstaged]
      cases n with
      | zero => exact .half hintent hnext hcommitted hregistry hchecksum hstaged
      | succ n =>
        apply recoverable_take_cleanup_of_replaced _ hnext
        · exact pairIs_rename hcommitted hregistry hstaged
        · rw [readIntent_congr]
          · exact hintent
          · exact Step.apply_rename_of_ne (by simp) (by simp)

/-! ### Cutting a commit -/

/-- The intent of a commit, as the commit writes it. -/
abbrev commitIntent (host : Host) (pair : Option Registry) (uuid : Uuid) (registry : Registry) :
    RegistryIntent :=
  intentFor host (pair.map fun r => (r, registryDigest host r)) uuid registry
    (registryBytes host registry)

/-- An intent is read back from its file. -/
lemma readIntent_of_file (hdecode : host.intentFromSlice (host.intentToVec intent ++ [10]) = some intent)
    (hlength : (host.intentToVec intent ++ [10]).length ≤ 16 * 1024) (hnames : intent.NamesPrivate)
    (hfile : d intentFile = some (host.intentToVec intent ++ [10])) :
    readIntent host d = .ok intent := by
  have hcanonical : ¬ (host.intentToVec intent ++ [10] ≠ host.intentToVec intent ++ [10] ∨
      intent.registryTemp ≠ privateName intent.transactionUuid "json" ∨
      intent.checksumTemp ≠ privateName intent.transactionUuid "sha256") :=
    not_or.mpr ⟨not_not.mpr rfl,
      not_or.mpr ⟨not_not.mpr hnames.registryTemp, not_not.mpr hnames.checksumTemp⟩⟩
  unfold readIntent
  rw [readRegularBounded_eq hfile hlength, ok_bind, hdecode]
  show (refuseIf _ _ >>= fun _ => Except.ok intent) = _
  rw [refuseIf_of_not hcanonical, ok_bind]

/-- The commit has staged everything and starts to rename. -/
structure ReadyToPublish (host : Host) (commits : List (Registry × Uuid)) (pair : Option Registry)
    (uuid : Uuid) (registry : Registry) (d : Directory) : Prop where
  inPlace : PairIs host commits d pair
  staged : StagedIs host commits d uuid registry
  txn : d (privateName uuid "txn")
    = some (host.intentToVec (commitIntent host pair uuid registry) ++ [10])

lemma ReadyToPublish.announces : Announces host (commitIntent host pair uuid registry) registry :=
  ⟨rfl, rfl⟩

/-- The directories after one, two, three and four steps of the renames. -/
lemma recoverable_publish (hserde : host.RoundTrips commits) (hmem : (registry, uuid) ∈ commits)
    (h : ReadyToPublish host commits pair uuid registry d) {n : ℕ} (hn : 0 < n) :
    Recoverable host commits (applyAll d ((publishSteps uuid).take n))
      (if n = 1 then pair else some registry) := by
  set intent := commitIntent host pair uuid registry with hintentEq
  set d₁ := Step.apply d (.rename (privateName uuid "txn") intentFile) with hd₁
  set d₂ := Step.apply d₁ (.rename (privateName uuid "json") registryFile) with hd₂
  set d₃ := Step.apply d₂ (.rename (privateName uuid "sha256") checksumFile) with hd₃
  -- the intent, and everything else as it was
  have hframe₁ : ∀ name, name ≠ privateName uuid "txn" → name ≠ intentFile → d₁ name = d name :=
    fun name hs ht => Step.apply_rename_of_ne hs ht
  have hframe₂ : ∀ name, name ≠ privateName uuid "json" → name ≠ registryFile → d₂ name = d₁ name :=
    fun name hs ht => Step.apply_rename_of_ne hs ht
  have hregistries : ∀ r ∈ pair, r ∈ commits.map Prod.fst := by
    intro r hr
    have hpair := h.inPlace
    rw [Option.mem_def.mp hr] at hpair
    exact hpair.1.mem
  obtain ⟨hdecode, hlength⟩ := hserde.intent pair hregistries (registry, uuid) hmem intent rfl
  have hread₁ : readIntent host d₁ = .ok intent := by
    apply readIntent_of_file hdecode hlength ⟨rfl, rfl⟩
    exact h.txn
  have hpair₁ : PairIs host commits d₁ pair :=
    h.inPlace.congr (hframe₁ _ (by simp) (by simp)) (hframe₁ _ (by simp) (by simp))
  have hstaged₁ : StagedIs host commits d₁ uuid registry :=
    { committed := h.staged.committed
      json := (hframe₁ _ (by simp) (by simp)).trans h.staged.json
      sha256 := (hframe₁ _ (by simp) (by simp)).trans h.staged.sha256 }
  have hread₂ : readIntent host d₂ = .ok intent := by
    rw [readIntent_congr (hframe₂ _ (by simp) (by simp))]
    exact hread₁
  have hregistry₂ : d₂ registryFile = some (registryBytes host registry) := by
    rw [hd₂, Step.apply_rename_target (by simp)]
    exact hstaged₁.json
  have hsha₂ : d₂ (privateName uuid "sha256") = some (checksumText (registryDigest host registry)) := by
    rw [hframe₂ _ (by simp) (by simp)]
    exact hstaged₁.sha256
  have hpair₃ : PairIs host commits d₃ (some registry) :=
    pairIs_rename h.staged.committed hregistry₂ hsha₂
  have hread₃ : readIntent host d₃ = .ok intent := by
    rw [readIntent_congr]
    · exact hread₂
    · exact Step.apply_rename_of_ne (by simp) (by simp)
  obtain rfl | rfl | rfl | hlast : n = 1 ∨ n = 2 ∨ n = 3 ∨ 4 ≤ n := by omega
  · -- the intent is durable; the pair in place may already be the announced one
    show Recoverable host commits d₁ pair
    by_cases hother : ∀ current ∈ pair, ¬ Announces host intent current
    · refine .staged hread₁ hpair₁ ?_ ?_ hother ReadyToPublish.announces hstaged₁
      · exact Option.map_map _ _ _
      · exact Option.map_map _ _ _
    · push Not at hother
      obtain ⟨current, hcurrent, hannounced⟩ := hother
      rw [Option.mem_def.mp hcurrent] at hpair₁ ⊢
      exact .replaced hread₁ hannounced hpair₁
  · -- the registry is replaced; an equal checksum may be there from before
    show Recoverable host commits d₂ (some registry)
    by_cases hchecksum : d₂ checksumFile = some (checksumText (registryDigest host registry))
    · exact .replaced hread₂ ReadyToPublish.announces ⟨h.staged.committed, hregistry₂, hchecksum⟩
    · exact .half hread₂ ReadyToPublish.announces h.staged.committed hregistry₂ hchecksum hsha₂
  · show Recoverable host commits d₃ (some registry)
    exact .replaced hread₃ ReadyToPublish.announces hpair₃
  · rw [take_of_length_le (by simpa [publishSteps] using hlast), if_neg (by omega)]
    show Recoverable host commits (Step.apply d₃ (.unlink intentFile)) (some registry)
    apply Recoverable.idle (Step.apply_unlink_self _ _)
    apply hpair₃.congr
    · exact Step.apply_of_notMem (by simp [Step.names, registryFile, intentFile])
    · exact Step.apply_of_notMem (by simp [Step.names, checksumFile, intentFile])

/-- What a commit does before its intent becomes visible. -/
abbrev prepareSteps (host : Host) (d : Directory) (pair : Option Registry) (uuid : Uuid)
    (registry : Registry) : List (Step String UInt8) :=
  stagingSteps host d uuid (registryBytes host registry)
    ++ intentSteps host d (commitIntent host pair uuid registry)

/-- It touches the private files of the commit only. -/
lemma touches_prepare (host : Host) (d : Directory) (previous : Option (Registry × String))
    (uuid : Uuid) (registry : Registry) (next : List UInt8) :
    Touches (stagingSteps host d uuid next
        ++ intentSteps host d (intentFor host previous uuid registry next))
      [privateName uuid "json", privateName uuid "sha256", privateName uuid "txn"] :=
  ((touches_stagingSteps d).mono (by simp)).append ((touches_intentSteps d).mono (by simp [intentFor]))

/-- The directory in which a commit starts to rename. -/
lemma readyToPublish_of_pairIs (hwhole : host.WritesWhole)
    (hcommitted : Committed host commits registry) (hpair : PairIs host commits d pair) :
    ReadyToPublish host commits pair uuid registry
      (applyAll d (prepareSteps host d pair uuid registry)) where
  inPlace := by
    have htouches := touches_prepare host d (pair.map fun r => (r, registryDigest host r)) uuid
      registry (registryBytes host registry)
    exact hpair.congr (htouches.frame (by simp)) (htouches.frame (by simp))
  staged :=
    { committed := hcommitted
      json := by
        rw [applyAll_append, (touches_intentSteps _).frame (by simp),
          applyAll_stagingSteps_json hwhole]
      sha256 := by
        rw [applyAll_append, (touches_intentSteps _).frame (by simp),
          applyAll_stagingSteps_sha256 hwhole]
        rfl }
  txn := by
    rw [applyAll_append]
    exact applyAll_intentSteps_txn hwhole

/-- Before the intent of the commit is visible, the directory recovers as it did, unless the commit
works on the staged pair of a pending one. -/
lemma recoverable_take_prepare (hserde : host.RoundTrips commits) (hwhole : host.WritesWhole)
    (hcommitted : Committed host commits registry) (h : Recoverable host commits d pair)
    (hpair : PairIs host commits d pair) {n : ℕ}
    (hn : n ≤ (prepareSteps host d pair uuid registry).length)
    (hkeeps : ¬ LosesStaged host d (.commit registry uuid (some n))) :
    Recoverable host commits (applyAll d ((prepareSteps host d pair uuid registry).take n)) pair := by
  set next := registryBytes host registry with hnext
  set d' := applyAll d ((prepareSteps host d pair uuid registry).take n) with hd'
  have htouches := (touches_prepare host d (pair.map fun r => (r, registryDigest host r)) uuid
    registry next).take n
  have hintentFile : d' intentFile = d intentFile := htouches.frame (by simp)
  have hpair' : PairIs host commits d' pair :=
    hpair.congr (htouches.frame (by simp)) (htouches.frame (by simp))
  cases h with
  | idle hintent _ => exact .idle (hintentFile.trans hintent) hpair'
  | replaced hintent hannounces _ =>
    exact .replaced ((readIntent_congr hintentFile).trans hintent) hannounces hpair'
  | half hintent hannounces _ hregistry hchecksum _ => exact absurd hpair.2.2 hchecksum
  | @staged intent _ old hintent _ hrevision hdigest hother hannounces hstaged =>
    have hread : readIntent host d' = .ok intent := (readIntent_congr hintentFile).trans hintent
    by_cases hsame : uuid = intent.transactionUuid
    · -- the commit stages its own pair over the pending one
      have hrolls := rollsBack_of_staged hserde hintent hpair hrevision hdigest hother hannounces
        hstaged
      have hkept : ¬ (0 < n ∧ (n < (stagingSteps host d uuid next).length ∨
          (n ≤ (stagingSteps host d uuid next).length
              + (intentSteps host d (commitIntent host pair uuid registry)).length ∧
            ¬ (registry.revision = intent.nextRevision ∧
              hex (host.sha256 next) = intent.nextSha256)))) := fun hlost =>
        hkeeps ⟨intent, hrolls, hsame, n, next, _, rfl, hcommitted.bytes,
          readValidPair_of_pairIs hserde hpair, hlost.1, hlost.2⟩
      by_cases hzero : n = 0
      · rw [hd', hzero, take_zero]
        exact .staged hintent hpair hrevision hdigest hother hannounces hstaged
      rw [length_append] at hn
      have hlate : (stagingSteps host d uuid next).length ≤ n := by
        by_contra hlt
        exact hkept ⟨by omega, .inl (by omega)⟩
      have hagain : registry.revision = intent.nextRevision ∧
          hex (host.sha256 next) = intent.nextSha256 := by
        by_contra hdiffer
        exact hkept ⟨by omega, .inr ⟨hn, hdiffer⟩⟩
      have hannounces' : Announces host intent registry := ⟨hagain.1.symm, hagain.2.symm⟩
      refine .staged hread hpair' hrevision hdigest hother hannounces' ?_
      rw [← hsame, hd', applyAll_take_append, take_of_length_le hlate]
      exact
        { committed := hcommitted
          json := by
            rw [((touches_intentSteps _).take _).frame (by simp), applyAll_stagingSteps_json hwhole]
          sha256 := by
            rw [((touches_intentSteps _).take _).frame (by simp),
              applyAll_stagingSteps_sha256 hwhole]
            rfl }
    · refine .staged hread hpair' hrevision hdigest hother hannounces ?_
      exact
        { committed := hstaged.committed
          json := (htouches.frame (by simp [Ne.symm hsame])).trans hstaged.json
          sha256 := (htouches.frame (by simp [Ne.symm hsame])).trans hstaged.sha256 }

/-- A recoverable directory holds its pair, or its pair is refused. -/
lemma pairIs_or_unreadable (h : Recoverable host commits d pair) :
    PairIs host commits d pair ∨ ∃ e, readValidPair host d = .error e := by
  cases h with
  | idle _ hpair => exact .inl hpair
  | replaced _ _ hpair => exact .inl hpair
  | staged _ hpair _ _ _ _ _ => exact .inl hpair
  | half _ _ _ hregistry hchecksum _ =>
    obtain ⟨e, hfail⟩ := readRegistry_of_mismatch hregistry hchecksum
    refine .inr ⟨e, ?_⟩
    unfold readValidPair
    rw [if_neg (by rw [hregistry]; simp), hfail]
    rfl

/-- A program that is refused at once leaves the directory alone, cut off or not. -/
lemma leave_of_refused {x : Fs Unit} {e : GfError} (h : x.run d = ([], .error e))
    (cut : Option ℕ) : leave x cut d = d := by
  cases cut with
  | none =>
    show applyAll d (x.run d).1 = d
    rw [h]
    rfl
  | some n =>
    show applyAll d ((x.run d).1.take n) = d
    rw [h, take_nil]
    rfl

/-- A commit leaves the directory recoverable, to the pair before it or to its own. -/
theorem recoverable_commit (hserde : host.RoundTrips commits) (hwhole : host.WritesWhole)
    (hmem : (registry, uuid) ∈ commits) (h : Recoverable host commits d pair) {cut : Option ℕ}
    (hkeeps : ¬ LosesStaged host d (.commit registry uuid cut)) :
    ∃ pair', Recoverable host commits (leave (commitRegistry host registry uuid) cut d) pair' ∧
      (pair' = pair ∨ pair' = some registry) ∧
      (cut = none → ((commitRegistry host registry uuid).run d).2 = .ok () →
        pair' = some registry) := by
  by_cases hrefused : ∃ e, (commitRegistry host registry uuid).run d = ([], .error e)
  · -- a refusal changes nothing, and is not a return
    obtain ⟨e, hrun⟩ := hrefused
    refine ⟨pair, ?_, .inl rfl, ?_⟩
    · rw [leave_of_refused hrun]
      exact h
    intro _ hreturned
    rw [hrun] at hreturned
    cases hreturned
  cases hbytes : canonicalBytes host registry with
  | error e => exact absurd ⟨e, Program.ofExcept_error_bind hbytes⟩ hrefused
  | ok next =>
    rcases pairIs_or_unreadable h with hpair | ⟨e, hunreadable⟩
    swap
    · refine absurd ⟨e, ?_⟩ hrefused
      unfold commitRegistry
      rw [Program.ofExcept_bind hbytes, Program.read_bind, Program.ofExcept_error_bind hunreadable]
    rw [(canonicalBytes_of_ok hbytes).1] at hbytes
    have hcommitted : Committed host commits registry :=
      ⟨mem_map.mpr ⟨_, hmem, rfl⟩, hbytes⟩
    have hrun : (commitRegistry host registry uuid).run d = _ :=
      commitRegistry_eq hwhole hbytes (readValidPair_of_pairIs hserde hpair)
    have hready : ReadyToPublish host commits pair uuid registry _ :=
      readyToPublish_of_pairIs hwhole hcommitted hpair
    rw [← append_assoc] at hrun
    set prepare := prepareSteps host d pair uuid registry
    cases cut with
    | none =>
      refine ⟨some registry, ?_, .inr rfl, fun _ _ => rfl⟩
      show Recoverable host commits (applyAll d ((commitRegistry host registry uuid).run d).1) _
      rw [hrun, applyAll_append]
      exact recoverable_publish hserde hmem hready (n := 4) (by omega)
    | some n =>
      show ∃ pair', Recoverable host commits
        (applyAll d (((commitRegistry host registry uuid).run d).1.take n)) pair' ∧ _
      rw [hrun, applyAll_take_append]
      by_cases hn : n ≤ prepare.length
      · have hkept := recoverable_take_prepare hserde hwhole hcommitted h hpair hn hkeeps
        refine ⟨pair, ?_, .inl rfl, fun hnone => absurd hnone (Option.some_ne_none n)⟩
        rw [Nat.sub_eq_zero_of_le hn, take_zero]
        exact hkept
      have hpublished := recoverable_publish hserde hmem hready
        (show 0 < n - prepare.length by omega)
      rw [take_of_length_le (by omega : prepare.length ≤ n)]
      refine ⟨_, hpublished, ?_, fun hnone => absurd hnone (Option.some_ne_none n)⟩
      by_cases hone : n - prepare.length = 1
      · rw [if_pos hone]
        exact .inl rfl
      · rw [if_neg hone]
        exact .inr rfl

/-! ### Where recovery fails -/

/-- What a staged pair that passes validation consists of. -/
lemma files_of_validateStagedPair {u : Unit} (hnames : intent.NamesPrivate)
    (h : validateStagedPair host d intent = .ok u) :
    ∃ bytes, d (privateName intent.transactionUuid "json") = some bytes ∧
      hex (host.sha256 bytes) = intent.nextSha256 ∧
      d (privateName intent.transactionUuid "sha256") = some (checksumText intent.nextSha256) ∧
      ∃ registry, host.registryFromSlice bytes = some registry ∧
        registry.revision = intent.nextRevision := by
  unfold validateStagedPair at h
  rw [hnames.registryTemp, hnames.checksumTemp] at h
  obtain ⟨bytes, hjson, h⟩ := bind_eq_ok_iff.mp h
  obtain ⟨checksum, hsha, h⟩ := bind_eq_ok_iff.mp h
  obtain ⟨_, hmatch, h⟩ := bind_eq_ok_iff.mp h
  obtain ⟨registry, hdecode, h⟩ := bind_eq_ok_iff.mp h
  obtain ⟨canonical, -, h⟩ := bind_eq_ok_iff.mp h
  rw [refuseIf_eq_ok_iff, not_or] at hmatch h
  refine ⟨bytes, file_of_readRegularBounded hjson, not_not.mp hmatch.1, ?_, registry, ?_,
    not_not.mp h.2⟩
  · rw [file_of_readRegularBounded hsha, not_not.mp hmatch.2]
  · cases hslice : host.registryFromSlice bytes with
    | none => rw [hslice] at hdecode; cases hdecode
    | some decoded =>
      rw [hslice] at hdecode
      exact congrArg some (Except.ok.inj hdecode)

/-- A staged pair that does not pass stops recovery, with nothing changed. -/
lemma recovered_of_lost {d' : Directory} (h : RollsBack host d intent)
    (hintent : d' intentFile = d intentFile) (hregistry : d' registryFile = d registryFile)
    (hchecksum : d' checksumFile = d checksumFile)
    (hlost : validateStagedPair host d' intent ≠ .ok ()) :
    ∃ e, recovered host d' = .error e := by
  have hread : readIntent host d' = .ok intent := (readIntent_congr hintent).trans h.read
  have hprevious : PreviousInPlace host d' intent := by
    have := h.previous
    unfold PreviousInPlace at this ⊢
    rwa [readValidPair_congr hregistry hchecksum]
  cases hcheck : validateStagedPair host d' intent with
  | ok u => exact absurd hcheck hlost
  | error e =>
    refine ⟨e, ?_⟩
    unfold recovered
    rw [recoverPair_of_previousInPlace hread hprevious]
    unfold rollBack
    rw [Program.read_bind, Program.ofExcept_error_bind hcheck]
    rfl

/-- A recovery that has removed the staged registry and not yet the intent. -/
lemma recovered_of_cut_recovery (h : RollsBack host d intent) {n : ℕ} (hpos : 0 < n) (hn : n < 3) :
    ∃ e, recovered host (leave (recoverPair host) (some n) d) = .error e := by
  have hnames := (of_readIntent h.read).2
  obtain ⟨bytes, hjson, -, hsha, -⟩ := files_of_validateStagedPair hnames h.staged
  have hsteps : cleanupSteps d intent.transactionUuid
      = [.unlink (privateName intent.transactionUuid "json"),
        .unlink (privateName intent.transactionUuid "sha256"), .unlink intentFile] := by
    unfold cleanupSteps unlinkSteps
    rw [hjson, hsha]
    rfl
  have hlength : (cleanupSteps d intent.transactionUuid).length = 3 := by rw [hsteps]; rfl
  show ∃ e, recovered host (applyAll d (((recoverPair host).run d).1.take n)) = .error e
  rw [h.recoverPair_eq]
  apply recovered_of_lost h
  · exact applyAll_take_cleanupSteps_intent (hlength ▸ hn)
  · exact ((touches_cleanupSteps _ _).take n).frame (by simp)
  · exact ((touches_cleanupSteps _ _).take n).frame (by simp)
  -- the staged registry went first
  intro hvalid
  obtain ⟨_, hfound, -⟩ := files_of_validateStagedPair hnames hvalid
  obtain ⟨k, rfl⟩ : ∃ k, n = k + 1 := ⟨n - 1, by omega⟩
  have hlater : Touches (β := UInt8)
      [.unlink (privateName intent.transactionUuid "sha256"), .unlink intentFile]
      [privateName intent.transactionUuid "sha256", intentFile] := by
    simp [Touches, Step.names]
  rw [hsteps, take_succ_cons, applyAll_cons, (hlater.take k).frame (by simp),
    Step.apply_unlink_self] at hfound
  cases hfound

/-- While a commit stages its pair over a staged one, one of the two files is missing or short. -/
lemma validateStagedPair_of_staging (hwhole : host.WritesWhole) {next : List UInt8}
    (hnames : intent.NamesPrivate)
    (hjson : (d (privateName intent.transactionUuid "json")).isSome = true)
    (hsha : (d (privateName intent.transactionUuid "sha256")).isSome = true) {n : ℕ} (hpos : 0 < n)
    (hn : n < (stagingSteps host d intent.transactionUuid next).length) :
    validateStagedPair host
      (applyAll d ((stagingSteps host d intent.transactionUuid next).take n)) intent ≠ .ok () := by
  intro hvalid
  obtain ⟨bytes, hregistry, hdigest, hchecksum, -⟩ := files_of_validateStagedPair hnames hvalid
  set json := privateName intent.transactionUuid "json" with hjsonEq
  set sha := privateName intent.transactionUuid "sha256" with hshaEq
  set text := checksumText (hex (host.sha256 next)) with htext
  have hsteps : stagingSteps host d intent.transactionUuid next
      = .unlink json :: .unlink sha :: (writeSteps host json next ++ writeSteps host sha text) := by
    unfold stagingSteps unlinkSteps
    rw [if_pos hjson, if_pos hsha]
    rfl
  rw [hsteps] at hregistry hchecksum hn
  obtain ⟨m, rfl⟩ : ∃ m, n = m + 1 := ⟨n - 1, by omega⟩
  rw [take_succ_cons, applyAll_cons] at hregistry hchecksum
  cases m with
  | zero =>
    -- only the registry has been removed
    rw [take_zero, applyAll_nil, Step.apply_unlink_self] at hregistry
    cases hregistry
  | succ m =>
    rw [take_succ_cons, applyAll_cons, applyAll_take_append] at hchecksum
    set d₂ := Step.apply (Step.apply d (.unlink json)) (.unlink sha) with hd₂
    have hgone : applyAll d₂ ((writeSteps host json next).take m) sha = none := by
      rw [((touches_writeSteps _ _ _).take m).frame (by simp [hjsonEq, hshaEq]), hd₂,
        Step.apply_unlink_self]
    cases hk : m - (writeSteps host json next).length with
    | zero =>
      rw [hk, take_zero, applyAll_nil, hgone] at hchecksum
      cases hchecksum
    | succ k =>
      -- the checksum is being written, and is too short
      rw [hk, applyAll_take_writeSteps] at hchecksum
      have hlength : (writeSteps host sha text).length = (host.pieces text).length + 1 := by
        simp [writeSteps]
      rw [length_cons, length_cons, length_append, hlength] at hn
      have hshort := length_take_pieces_lt hwhole (show k < (host.pieces text).length by omega)
      rw [Option.some.inj hchecksum, ← hdigest, length_checksumText, htext, length_checksumText]
        at hshort
      exact lt_irrefl _ hshort

/-- A commit under the transaction of an unfinished one, cut before the pair is staged again or the
intent is replaced. -/
lemma recovered_of_cut_commit (hserde : host.RoundTrips commits) (hwhole : host.WritesWhole)
    (hmem : (registry, intent.transactionUuid) ∈ commits) (h : RollsBack host d intent)
    {next : List UInt8} {previous : Option (Registry × String)} {n : ℕ}
    (hbytes : canonicalBytes host registry = .ok next)
    (hprevious : readValidPair host d = .ok previous) (hpos : 0 < n)
    (hn : n < (stagingSteps host d intent.transactionUuid next).length ∨
      (n ≤ (stagingSteps host d intent.transactionUuid next).length + (intentSteps host d
            (intentFor host previous intent.transactionUuid registry next)).length ∧
        ¬ (registry.revision = intent.nextRevision ∧ hex (host.sha256 next) = intent.nextSha256))) :
    ∃ e, recovered host (leave (commitRegistry host registry intent.transactionUuid) (some n) d)
      = .error e := by
  have hnames := (of_readIntent h.read).2
  obtain ⟨bytes, hjson, -, hsha, -⟩ := files_of_validateStagedPair hnames h.staged
  set uuid := intent.transactionUuid with huuid
  set staging := stagingSteps host d uuid next with hstaging
  set announcing := intentSteps host d (intentFor host previous uuid registry next)
  have hle : n ≤ (staging ++ announcing).length := by
    rw [length_append]
    omega
  show ∃ e, recovered host
    (applyAll d (((commitRegistry host registry uuid).run d).1.take n)) = .error e
  rw [commitRegistry_eq hwhole hbytes hprevious, ← append_assoc]
  show ∃ e, recovered host (applyAll d (((staging ++ announcing) ++ publishSteps uuid).take n))
    = .error e
  rw [take_append_of_le_length hle]
  have htouches := (touches_prepare host d previous uuid registry next).take n
  apply recovered_of_lost h
  · exact htouches.frame (by simp)
  · exact htouches.frame (by simp)
  · exact htouches.frame (by simp)
  by_cases hearly : n < staging.length
  · rw [take_append_of_le_length (by omega)]
    exact validateStagedPair_of_staging hwhole hnames (by rw [← huuid, hjson]; rfl)
      (by rw [← huuid, hsha]; rfl) hpos hearly
  -- the pair is staged, but it is not the announced one
  have hdiffer := (hn.resolve_left hearly).2
  intro hvalid
  obtain ⟨found, hfound, hdigest, -, decoded, hdecoded, hrevision⟩ :=
    files_of_validateStagedPair hnames hvalid
  rw [applyAll_take_append, take_of_length_le (not_lt.mp hearly), ← huuid,
    ((touches_intentSteps _).take _).frame (by simp), hstaging,
    applyAll_stagingSteps_json hwhole] at hfound
  obtain rfl := Option.some.inj hfound
  have hback := hserde.registry _ hmem
  rw [← (canonicalBytes_of_ok hbytes).1, hdecoded] at hback
  rw [Option.some.inj hback] at hrevision
  exact hdiffer ⟨hrevision, hdigest⟩

end Atomic

/-! ## Runs -/

section Runs

variable {host : Host} {calls : List Call}

section
variable {commits : List (Registry × Uuid)} {d : Directory} {call : Call}
  (hserde : host.RoundTrips commits) (hwhole : host.WritesWhole)
include hserde hwhole

/-- A call that loses a staged registry is not atomic. -/
theorem not_atomicCall_of_losesStaged (hmem : ∀ c ∈ commitsOf [call], c ∈ commits)
    (hlost : LosesStaged host d call) : ¬ AtomicCall host d call := by
  rintro ⟨before, after, -, hafter, -⟩
  obtain ⟨intent, hrolls, hcut⟩ := hlost
  have hfails : ∃ e, recovered host (call.exec host d) = .error e := by
    cases call with
    | recover cut =>
      obtain ⟨n, rfl, hpos, hn⟩ := hcut
      exact recovered_of_cut_recovery hrolls hpos hn
    | commit registry uuid cut =>
      obtain ⟨rfl, n, next, previous, rfl, hbytes, hprevious, hpos, hn⟩ := hcut
      exact recovered_of_cut_commit hserde hwhole (hmem _ (by simp [commitsOf])) hrolls hbytes
        hprevious hpos hn
  obtain ⟨e, hfail⟩ := hfails
  rw [hfail] at hafter
  cases hafter

/-- A call on a recoverable directory that keeps the staged pair is atomic, and leaves a recoverable
directory. -/
theorem atomicCall_of_recoverable {pair : Option Registry}
    (hmem : ∀ c ∈ commitsOf [call], c ∈ commits) (h : Recoverable host commits d pair)
    (hkeeps : ¬ LosesStaged host d call) :
    AtomicCall host d call ∧ ∃ pair', Recoverable host commits (call.exec host d) pair' := by
  have hbefore := (recovered_of_recoverable hserde h).1
  cases call with
  | recover cut =>
    have hleft : Recoverable host commits (leave (recoverPair host) cut d) pair :=
      recoverable_recover hserde h hkeeps
    have hafter := recovered_of_recoverable hserde hleft
    exact ⟨⟨_, _, hbefore, hafter.1, rfl, hafter.2⟩, pair, hleft⟩
  | commit registry uuid cut =>
    obtain ⟨pair', hleft, hpair', hreturned⟩ :=
      recoverable_commit hserde hwhole (hmem _ (by simp [commitsOf])) h hkeeps
    have hafter := recovered_of_recoverable hserde hleft
    refine ⟨⟨_, _, hbefore, hafter.1, ⟨?_, ?_⟩, hafter.2⟩, pair', hleft⟩
    · rcases hpair' with rfl | rfl
      · exact .inl rfl
      · exact .inr rfl
    · intro hcut hok
      rw [hreturned hcut hok]
      rfl

/-- As long as no call loses a staged pair, the directory stays recoverable. -/
lemma recoverable_runCalls (done : List Call) (hmem : ∀ c ∈ commitsOf done, c ∈ commits)
    (hkeeps : ∀ before call rest, done = before ++ call :: rest →
      ¬ LosesStaged host (runCalls host before) call) :
    ∃ pair, Recoverable host commits (runCalls host done) pair := by
  induction done using reverseRecOn with
  | nil => exact ⟨none, .idle rfl ⟨rfl, rfl⟩⟩
  | append_singleton done call ih =>
    rw [commitsOf, filterMap_append] at hmem
    obtain ⟨pair, hpair⟩ := ih (fun c hc => hmem c (mem_append_left _ hc))
      (fun before call' rest hsplit => hkeeps before call' (rest ++ [call]) (by simp [hsplit]))
    rw [runCalls, foldl_append]
    exact (atomicCall_of_recoverable hserde hwhole
      (fun c hc => hmem c (mem_append_right _ hc)) hpair (hkeeps done call [] rfl)).2

end

lemma commitsOf_subset {done rest : List Call} {call : Call} (h : calls = done ++ call :: rest) :
    (∀ c ∈ commitsOf done, c ∈ commitsOf calls) ∧ ∀ c ∈ commitsOf [call], c ∈ commitsOf calls := by
  have hsplit : commitsOf calls = commitsOf done ++ (commitsOf [call] ++ commitsOf rest) := by
    rw [h, commitsOf, filterMap_append, ← singleton_append, filterMap_append]
    rfl
  rw [hsplit]
  exact ⟨fun c hc => mem_append_left _ hc,
    fun c hc => mem_append_right _ (mem_append_left _ hc)⟩

/-- Every sequence of commits and recoveries, each cut anywhere or not at all, is atomic exactly
when no call is cut between the loss of a staged pair and the removal of its intent. -/
theorem atomicRun_iff (hwhole : host.WritesWhole) (hserde : host.RoundTrips (commitsOf calls)) :
    AtomicRun host calls ↔ ∀ done call rest, calls = done ++ call :: rest →
        ¬ LosesStaged host (runCalls host done) call := by
  constructor
  · intro hatomic done call rest hsplit hlost
    exact not_atomicCall_of_losesStaged hserde hwhole (commitsOf_subset hsplit).2 hlost
      (hatomic done call rest hsplit)
  · intro hkeeps done call rest hsplit
    have hmem := commitsOf_subset hsplit
    have hdone : ∀ before call' rest', done = before ++ call' :: rest' →
        ¬ LosesStaged host (runCalls host before) call' := by
      intro before call' rest' hbefore
      apply hkeeps before call' (rest' ++ call :: rest)
      rw [hsplit, hbefore, append_assoc]
      rfl
    obtain ⟨pair, hpair⟩ := recoverable_runCalls hserde hwhole done hmem.1 hdone
    exact (atomicCall_of_recoverable hserde hwhole hmem.2 hpair (hkeeps done call rest hsplit)).1

end Runs

/-! ## A first commit, interrupted, and its recovery, interrupted -/

section Sample

/-- The first registry of a project, without checkpoints. -/
def sampleRegistry : Registry := { Registry.empty with revision := 1 }

/-- The JSON text of the sample registry. -/
def sampleRegistryText : List UInt8 :=
  bytesOf ("\x7b\"format\":\"graphforge-checkpoints\",\"format_version\":1,\"revision\":1,"
    ++ "\"active\":[],\"tombstones\":[]\x7d")

/-- The JSON text of an intent. -/
def sampleIntentText (intent : RegistryIntent) : List UInt8 :=
  let revision := match intent.previousRevision with
    | some revision => toString revision
    | none => "null"
  let digest := match intent.previousSha256 with
    | some digest => "\"" ++ digest ++ "\""
    | none => "null"
  bytesOf ("\x7b\"transaction_uuid\":\"" ++ intent.transactionUuid.hyphenated
    ++ "\",\"previous_revision\":" ++ revision ++ ",\"previous_sha256\":" ++ digest
    ++ ",\"next_revision\":" ++ toString intent.nextRevision
    ++ ",\"next_sha256\":\"" ++ intent.nextSha256
    ++ "\",\"registry_temp\":\"" ++ intent.registryTemp
    ++ "\",\"checksum_temp\":\"" ++ intent.checksumTemp ++ "\"\x7d")

/-- The intents of a first and of a second commit of the sample registry. -/
def sampleIntents : List RegistryIntent :=
  let digest := hex (sha256 (sampleRegistryText ++ [10]))
  [none, some (1, digest)].map fun previous =>
    { transactionUuid := 7
      previousRevision := previous.map Prod.fst
      previousSha256 := previous.map Prod.snd
      nextRevision := 1
      nextSha256 := digest
      registryTemp := privateName 7 "json"
      checksumTemp := privateName 7 "sha256" }

/-- SHA-256, JSON on the sample values, and a system that writes a buffer at once. -/
def sampleHost : Host where
  sha256 := sha256
  nfc := id
  isAlphanumeric := Char.isAlphanum
  registryToVec registry := if registry = sampleRegistry then sampleRegistryText else []
  registryFromSlice bytes := if bytes = sampleRegistryText ++ [10] then some sampleRegistry else none
  intentToVec := sampleIntentText
  intentFromSlice bytes := sampleIntents.find? fun intent => sampleIntentText intent ++ [10] = bytes
  pieces bytes := if bytes = [] then [] else [bytes]

lemma sampleHost_writesWhole : sampleHost.WritesWhole where
  flatten bytes := by
    show (if bytes = [] then [] else [bytes]).flatten = bytes
    by_cases h : bytes = []
    · rw [if_pos h, h]
      rfl
    · rw [if_neg h]
      exact append_nil bytes
  ne_nil bytes piece hpiece := by
    have hmem : piece ∈ (if bytes = [] then [] else [bytes]) := hpiece
    by_cases h : bytes = []
    · rw [if_pos h] at hmem
      cases hmem
    · rw [if_neg h] at hmem
      rwa [mem_singleton.mp hmem]

/-- The commit is cut when its intent is durable, and the recovery after its first step. -/
def interruptedTwice : List Call :=
  [.commit sampleRegistry 7 (some 7), .recover (some 1)]

/-- The commit is cut when its intent is durable, and recovery is complete. -/
def interruptedOnce : List Call :=
  [.commit sampleRegistry 7 (some 7), .recover none, .commit sampleRegistry 7 none]

/-- The sample host reads back what it writes of the sample registry. -/
lemma sampleHost_roundTrips {commits : List (Registry × Uuid)}
    (h : ∀ c ∈ commits, c = (sampleRegistry, 7)) : sampleHost.RoundTrips commits where
  registry c hc := by
    rw [h c hc]
    decide +kernel
  intent previous hprevious c hc intent hintent := by
    rw [h c hc] at hintent
    cases previous with
    | none =>
      rw [hintent]
      decide +kernel
    | some r =>
      obtain ⟨c', hc', hr⟩ := mem_map.mp (hprevious r rfl)
      rw [h c' hc'] at hr
      rw [hintent, ← hr]
      decide +kernel

/-- No call of the interrupted run loses a staged registry. -/
lemma not_losesStaged_interruptedOnce (done : List Call) (call : Call) (rest : List Call)
    (h : interruptedOnce = done ++ call :: rest) :
    ¬ LosesStaged sampleHost (runCalls sampleHost done) call := by
  rintro ⟨intent, hrolls, hcut⟩
  match done, h with
  | [], h =>
    -- nothing is pending yet
    have hread : readIntent sampleHost (runCalls sampleHost [])
        = .error (registryCorrupt "checkpoint registry file is missing") := by
      decide +kernel
    rw [hrolls.read] at hread
    cases hread
  | [_], h =>
    obtain ⟨-, hcall, -⟩ : _ ∧ call = .recover none ∧ _ := by simpa [interruptedOnce] using h.symm
    rw [hcall] at hcut
    obtain ⟨n, hnone, -⟩ := hcut
    cases hnone
  | [_, _], h =>
    obtain ⟨-, -, hcall, -⟩ : _ ∧ _ ∧ call = .commit sampleRegistry 7 none ∧ _ := by
      simpa [interruptedOnce] using h.symm
    rw [hcall] at hcut
    obtain ⟨-, n, _, _, hnone, -⟩ := hcut
    cases hnone
  | _ :: _ :: _ :: done, h =>
    have hlength := congrArg List.length h
    simp only [interruptedOnce, length_append, length_cons, length_nil] at hlength
    omega

/-- One interruption is recovered from. -/
theorem atomicRun_interruptedOnce : AtomicRun sampleHost interruptedOnce :=
  (atomicRun_iff sampleHost_writesWhole (sampleHost_roundTrips (by decide +kernel))).mpr
    not_losesStaged_interruptedOnce

/-- After the second interruption the staged registry is missing, and recovery fails for good. -/
theorem not_atomicRun_interruptedTwice : ¬ AtomicRun sampleHost interruptedTwice := by
  intro h
  obtain ⟨_, after, -, hafter, -⟩ :=
    h [.commit sampleRegistry 7 (some 7)] (.recover (some 1)) [] rfl
  have hfails : recovered sampleHost
      (Call.exec sampleHost (runCalls sampleHost [.commit sampleRegistry 7 (some 7)])
        (.recover (some 1)))
      = .error (registryCorrupt "checkpoint registry file is missing") := by
    decide +kernel
  rw [hfails] at hafter
  cases hafter

end Sample

end GraphForge.Checkpoints
