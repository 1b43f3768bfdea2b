import GraphForge.Checkpoints.CommitSteps

/-!
# Recoverable directories

A directory is `Recoverable` in one of four ways: nothing is pending, the next pair is in place, the
previous pair is in place with the staged pair whole, or the registry has been replaced and its
checksum not yet. Recovery of such a directory succeeds and leaves nothing pending.
-/

namespace GraphForge.Checkpoints

open List

open Except (refuseIf bind_eq_ok_iff refuseIf_eq_ok_iff refuseIf_of_not ok_bind)
open CrashFs

/-! ## Registries with their bytes -/

section Reading

variable (host : Host) (commits : List (Registry × Uuid))

/-- JSON and a newline. -/
def registryBytes (registry : Registry) : List UInt8 := host.registryToVec registry ++ [10]

/-- The digest text of a registry. -/
def registryDigest (registry : Registry) : String := hex (host.sha256 (registryBytes host registry))

/-- What JSON gives back of the values the commits of a run write. -/
structure Host.RoundTrips : Prop where
  registry : ∀ c ∈ commits, host.registryFromSlice (registryBytes host c.1) = some c.1
  intent : ∀ previous : Option Registry, (∀ r ∈ previous, r ∈ commits.map Prod.fst) →
    ∀ c ∈ commits, ∀ intent,
      intent = intentFor host (previous.map fun r => (r, registryDigest host r)) c.2 c.1
        (registryBytes host c.1) →
      host.intentFromSlice (host.intentToVec intent ++ [10]) = some intent ∧
        (host.intentToVec intent ++ [10]).length ≤ 16 * 1024

/-- A registry of the run that has canonical bytes. -/
structure Committed (registry : Registry) : Prop where
  mem : registry ∈ commits.map Prod.fst
  bytes : canonicalBytes host registry = .ok (registryBytes host registry)

/-- The files of the registry and of its checksum. -/
def PairIs (d : Directory) : Option Registry → Prop
  | none => d registryFile = none ∧ d checksumFile = none
  | some registry => Committed host commits registry ∧
    d registryFile = some (registryBytes host registry) ∧
      d checksumFile = some (checksumText (registryDigest host registry))

variable {host commits} {d : Directory} {registry : Registry}

/-- Canonical bytes are those of the registry, within the bound. -/
lemma canonicalBytes_of_ok {bytes : List UInt8} (h : canonicalBytes host registry = .ok bytes) :
    bytes = registryBytes host registry ∧ bytes.length ≤ maxRegistryBytes := by
  unfold canonicalBytes at h
  obtain ⟨_, -, h⟩ := bind_eq_ok_iff.mp h
  obtain ⟨_, hbound, h⟩ := bind_eq_ok_iff.mp h
  obtain rfl := Except.ok.inj h
  exact ⟨rfl, not_lt.mp (refuseIf_eq_ok_iff.mp hbound)⟩

lemma length_bytesOf_hex (digest : Digest) : (bytesOf (hex digest)).length = 64 := by
  have hone : ∀ c ∈ hexText digest.1, (String.utf8EncodeChar c).length = 1 := by
    intro c hc
    rw [String.length_utf8EncodeChar, Char.utf8Size_eq_one_iff]
    have hhex := isLowerHex_of_mem_hexText hc
    unfold isLowerHex at hhex
    simp only [Bool.or_eq_true, Bool.and_eq_true, decide_eq_true_eq] at hhex
    rcases hhex with hdigit | hletter
    · exact UInt32.le_trans hdigit.2 (by decide)
    · exact UInt32.le_trans hletter.2 (by decide)
  have hbytes : bytesOf (hex digest) = (hexText digest.1).flatMap String.utf8EncodeChar := by
    show (String.ofList (hexText digest.1)).toByteArray.data.toList = _
    exact congrArg Array.toList data_toByteArray
  rw [hbytes, length_flatMap, map_congr_left hone]
  simp [digest.2]

lemma length_checksumText (digest : Digest) : (checksumText (hex digest)).length = 65 := by
  unfold checksumText
  rw [length_append, length_bytesOf_hex]
  rfl

/-- A checksum file is within its bound. -/
lemma length_checksum_le (registry : Registry) :
    (checksumText (registryDigest host registry)).length ≤ 128 := by
  unfold registryDigest
  rw [length_checksumText]
  omega

/-- A file within the bound is read. -/
lemma readRegularBounded_eq {name : String} {max : ℕ} {bytes : List UInt8}
    (hfile : d name = some bytes) (hbound : bytes.length ≤ max) :
    readRegularBounded d name max = .ok bytes := by
  unfold readRegularBounded
  rw [hfile]
  show (refuseIf (max < bytes.length) _ >>= fun _ => Except.ok bytes) = .ok bytes
  rw [refuseIf_of_not (not_lt.mpr hbound)]
  rfl

lemma Committed.length_le (h : Committed host commits registry) :
    (registryBytes host registry).length ≤ maxRegistryBytes :=
  (canonicalBytes_of_ok h.bytes).2

/-- A committed registry is read back from its bytes. -/
lemma Committed.fromSlice (hserde : host.RoundTrips commits) (h : Committed host commits registry) :
    host.registryFromSlice (registryBytes host registry) = some registry := by
  obtain ⟨c, hc, rfl⟩ := mem_map.mp h.mem
  exact hserde.registry c hc

section
variable (hserde : host.RoundTrips commits) {pair : Option Registry}
  (h : PairIs host commits d pair)
include hserde h

/-- The registry of a directory that holds the pair is the one it holds. -/
lemma readRegistry_of_pairIs : readRegistry host d = .ok (pair.getD Registry.empty) := by
  unfold readRegistry
  cases pair with
  | none =>
    have hnone : d registryFile = none ∧ d checksumFile = none := h
    rw [if_pos hnone]
    rfl
  | some registry =>
    obtain ⟨hcommitted, hregistry, hchecksum⟩ := h
    have hmatch : ¬ (checksumText (registryDigest host registry)
        ≠ checksumText (hex (host.sha256 (registryBytes host registry)))) := not_not.mpr rfl
    rw [if_neg (by rw [hregistry]; simp), readRegularBounded_eq hregistry hcommitted.length_le,
      ok_bind, readRegularBounded_eq hchecksum (length_checksum_le _), ok_bind,
      refuseIf_of_not hmatch, ok_bind, hcommitted.fromSlice hserde]
    show (canonicalBytes host registry >>= _) = _
    rw [hcommitted.bytes, ok_bind, refuseIf_of_not (not_not.mpr rfl), ok_bind]
    rfl

/-- The pair of such a directory is valid. -/
lemma readValidPair_of_pairIs :
    readValidPair host d = .ok (pair.map fun registry => (registry, registryDigest host registry)) := by
  have hread := readRegistry_of_pairIs hserde h
  unfold readValidPair
  cases pair with
  | none =>
    have hnone : d registryFile = none ∧ d checksumFile = none := h
    rw [if_pos hnone]
    rfl
  | some registry =>
    obtain ⟨hcommitted, hregistry, -⟩ := h
    rw [if_neg (by rw [hregistry]; simp), hread, ok_bind]
    show (canonicalBytes host registry >>= _) = _
    rw [hcommitted.bytes, ok_bind]
    rfl

end

/-- What is read is the file. -/
lemma file_of_readRegularBounded {name : String} {max : ℕ} {bytes : List UInt8}
    (h : readRegularBounded d name max = .ok bytes) : d name = some bytes := by
  unfold readRegularBounded at h
  cases hname : d name with
  | none => rw [hname] at h; cases h
  | some stored =>
    rw [hname] at h
    obtain ⟨_, -, h⟩ := bind_eq_ok_iff.mp h
    cases h
    rfl

/-- A registry whose checksum file does not belong to it cannot be read. -/
lemma readRegistry_of_mismatch (hregistry : d registryFile = some (registryBytes host registry))
    (hchecksum : d checksumFile ≠ some (checksumText (registryDigest host registry))) :
    ∃ e, readRegistry host d = .error e := by
  cases hread : readRegistry host d with
  | error e => exact ⟨e, rfl⟩
  | ok result =>
    exfalso
    unfold readRegistry at hread
    rw [if_neg (by rw [hregistry]; simp)] at hread
    obtain ⟨bytes, hbytes, hread⟩ := bind_eq_ok_iff.mp hread
    obtain ⟨checksum, hfile, hread⟩ := bind_eq_ok_iff.mp hread
    obtain ⟨_, hmatch, -⟩ := bind_eq_ok_iff.mp hread
    have hsame : bytes = registryBytes host registry :=
      Option.some.inj ((file_of_readRegularBounded hbytes).symm.trans hregistry)
    apply hchecksum
    rw [file_of_readRegularBounded hfile, not_not.mp (refuseIf_eq_ok_iff.mp hmatch), hsame]
    rfl

end Reading

/-! ## What the readers depend on -/

section Congr

variable {host : Host} {commits : List (Registry × Uuid)} {d d' : Directory}

lemma readRegularBounded_congr {name : String} (h : d' name = d name) (max : ℕ) :
    readRegularBounded d' name max = readRegularBounded d name max := by
  unfold readRegularBounded
  rw [h]

/-- Reading the intent depends on its file alone. -/
lemma readIntent_congr (h : d' intentFile = d intentFile) :
    readIntent host d' = readIntent host d := by
  unfold readIntent
  rw [readRegularBounded_congr h]

section
variable (hregistry : d' registryFile = d registryFile)
include hregistry

/-- Reading the registry depends on its two files alone. -/
lemma readRegistry_congr (hchecksum : d' checksumFile = d checksumFile) :
    readRegistry host d' = readRegistry host d := by
  unfold readRegistry
  rw [readRegularBounded_congr hregistry, readRegularBounded_congr hchecksum, hregistry, hchecksum]

lemma readValidPair_congr (hchecksum : d' checksumFile = d checksumFile) :
    readValidPair host d' = readValidPair host d := by
  unfold readValidPair
  rw [readRegistry_congr hregistry hchecksum, hregistry, hchecksum]

/-- Which pair a directory holds depends on the two files alone. -/
lemma PairIs.congr {pair : Option Registry} (h : PairIs host commits d pair)
    (hchecksum : d' checksumFile = d checksumFile) : PairIs host commits d' pair := by
  cases pair with
  | none =>
    have hnone : d registryFile = none ∧ d checksumFile = none := h
    exact ⟨hregistry.trans hnone.1, hchecksum.trans hnone.2⟩
  | some registry => exact ⟨h.1, hregistry.trans h.2.1, hchecksum.trans h.2.2⟩

end

/-- An intent that has been read is in the directory, and names private files. -/
lemma of_readIntent {intent : RegistryIntent} (h : readIntent host d = .ok intent) :
    (d intentFile).isSome = true ∧ intent.NamesPrivate := by
  unfold readIntent at h
  obtain ⟨bytes, hbytes, h⟩ := bind_eq_ok_iff.mp h
  obtain ⟨decoded, -, h⟩ := bind_eq_ok_iff.mp h
  obtain ⟨_, hnames, h⟩ := bind_eq_ok_iff.mp h
  have hintent : decoded = intent := Except.ok.inj h
  rw [refuseIf_eq_ok_iff, not_or, not_or, hintent] at hnames
  refine ⟨?_, not_not.mp hnames.2.1, not_not.mp hnames.2.2⟩
  unfold readRegularBounded at hbytes
  cases hfile : d intentFile with
  | none => rw [hfile] at hbytes; cases hbytes
  | some content => rfl

end Congr

/-! ## Cutting a cleanup -/

section Cleanup

variable {d d' : Directory} {uuid : Uuid} {name : String}

/-- Cleaning up touches the staged files and the intent. -/
lemma touches_cleanupSteps (d : Directory) (uuid : Uuid) : Touches (cleanupSteps d uuid)
    [privateName uuid "json", privateName uuid "sha256", intentFile] :=
  ((touches_unlinkSteps _ _).mono (by simp)).append
    (((touches_unlinkSteps _ _).mono (by simp)).append (by simp [Touches, Step.names]))

section
variable {host : Host} {commits : List (Registry × Uuid)} {pair : Option Registry}
  (h : PairIs host commits d' pair) (uuid : Uuid) (d : Directory)
include h

/-- A cleanup that is cut off leaves the pair alone. -/
lemma PairIs.take_cleanup (n : ℕ) :
    PairIs host commits (applyAll d' ((cleanupSteps d uuid).take n)) pair := by
  apply h.congr
  · exact ((touches_cleanupSteps d uuid).take n).frame (by simp)
  · exact ((touches_cleanupSteps d uuid).take n).frame (by simp)

lemma PairIs.cleanup : PairIs host commits (applyAll d' (cleanupSteps d uuid)) pair := by
  have hall := h.take_cleanup uuid d (cleanupSteps d uuid).length
  rwa [take_length] at hall

end

/-- The intent goes last. -/
lemma applyAll_take_cleanupSteps_intent {n : ℕ} (hn : n < (cleanupSteps d uuid).length) :
    applyAll d' ((cleanupSteps d uuid).take n) intentFile = d' intentFile := by
  unfold cleanupSteps at hn ⊢
  rw [← append_assoc] at hn ⊢
  rw [length_append, length_singleton] at hn
  rw [take_append_of_le_length (by omega)]
  have hprivate : Touches (unlinkSteps d (privateName uuid "json")
      ++ unlinkSteps d (privateName uuid "sha256"))
      [privateName uuid "json", privateName uuid "sha256"] :=
    ((touches_unlinkSteps _ _).mono (by simp)).append ((touches_unlinkSteps _ _).mono (by simp))
  exact (hprivate.take n).frame (by simp)

/-- After a cleanup there is no intent. -/
lemma applyAll_cleanupSteps_intent : applyAll d' (cleanupSteps d uuid) intentFile = none := by
  unfold cleanupSteps
  rw [applyAll_append, applyAll_append, applyAll_cons, applyAll_nil]
  exact Step.apply_unlink_self _ _

end Cleanup

/-! ## Recoverable directories -/

section Recoverable

variable (host : Host) (commits : List (Registry × Uuid))

/-- The intent announces a registry as the next one. -/
structure Announces (intent : RegistryIntent) (registry : Registry) : Prop where
  revision : intent.nextRevision = registry.revision
  digest : intent.nextSha256 = registryDigest host registry

/-- The staged files of a transaction hold a registry and its checksum. -/
structure StagedIs (d : Directory) (uuid : Uuid) (registry : Registry) : Prop where
  committed : Committed host commits registry
  json : d (privateName uuid "json") = some (registryBytes host registry)
  sha256 : d (privateName uuid "sha256") = some (checksumText (registryDigest host registry))

/-- The directory recovers to a pair. -/
inductive Recoverable (d : Directory) : Option Registry → Prop where
  /-- Nothing is pending. -/
  | idle {pair : Option Registry} : d intentFile = none → PairIs host commits d pair →
    Recoverable d pair
  /-- Both files have been replaced. -/
  | replaced {intent : RegistryIntent} {registry : Registry} :
    readIntent host d = .ok intent → Announces host intent registry →
    PairIs host commits d (some registry) → Recoverable d (some registry)
  /-- Neither file has been replaced. -/
  | staged {intent : RegistryIntent} {pair : Option Registry} {registry : Registry} :
    readIntent host d = .ok intent → PairIs host commits d pair →
    intent.previousRevision = pair.map Registry.revision →
    intent.previousSha256 = pair.map (registryDigest host) →
    (∀ current ∈ pair, ¬ Announces host intent current) → Announces host intent registry →
    StagedIs host commits d intent.transactionUuid registry → Recoverable d pair
  /-- The registry has been replaced, its checksum not yet. -/
  | half {intent : RegistryIntent} {registry : Registry} :
    readIntent host d = .ok intent → Announces host intent registry →
    Committed host commits registry → d registryFile = some (registryBytes host registry) →
    d checksumFile ≠ some (checksumText (registryDigest host registry)) →
    d (privateName intent.transactionUuid "sha256")
      = some (checksumText (registryDigest host registry)) →
    Recoverable d (some registry)

/-- The pair in place is the one the intent replaces, and not the one it announces. -/
def PreviousInPlace (d : Directory) (intent : RegistryIntent) : Prop :=
  match readValidPair host d with
  | .ok (some (current, digest)) =>
    ¬ (current.revision = intent.nextRevision ∧ digest = intent.nextSha256) ∧
      some current.revision = intent.previousRevision ∧ some digest = intent.previousSha256
  | .ok none => intent.previousRevision = none
  | .error _ => False

/-- The directory holds an unfinished commit that recovery undoes. -/
structure RollsBack (d : Directory) (intent : RegistryIntent) : Prop where
  read : readIntent host d = .ok intent
  previous : PreviousInPlace host d intent
  staged : validateStagedPair host d intent = .ok ()

variable {host commits} {d : Directory} {intent : RegistryIntent} {registry : Registry}
  {pair : Option Registry}

/-- Without an intent, recovery does nothing. -/
lemma recoverPair_of_idle (hserde : host.RoundTrips commits) (hintent : d intentFile = none)
    (hpair : PairIs host commits d pair) : (recoverPair host).run d = ([], .ok ()) := by
  unfold recoverPair
  rw [Program.read_bind, if_pos hintent, Program.ofExcept_bind (readRegistry_of_pairIs hserde hpair)]
  rfl

/-- With an intent, recovery follows it. -/
lemma recoverPair_of_readIntent (hintent : readIntent host d = .ok intent) :
    (recoverPair host).run d = (recoverIntent host intent).run d := by
  have hsome := (of_readIntent hintent).1
  unfold recoverPair
  rw [Program.read_bind, if_neg (by rw [← Option.not_isSome_iff_eq_none, hsome]; simp),
    Program.ofExcept_bind hintent]

section
variable (hserde : host.RoundTrips commits)
include hserde

/-- The next pair is in place: only the intent is left to remove. -/
lemma recoverPair_of_replaced (hintent : readIntent host d = .ok intent)
    (hnext : Announces host intent registry) (hpair : PairIs host commits d (some registry)) :
    (recoverPair host).run d = (cleanupSteps d intent.transactionUuid, .ok ()) := by
  have hread := of_readIntent hintent
  rw [recoverPair_of_readIntent hintent]
  unfold recoverIntent
  rw [Program.read_bind, readValidPair_of_pairIs hserde hpair]
  show (if _ then _ else _ : Fs Unit).run d = _
  rw [if_pos ⟨hnext.revision.symm, hnext.digest.symm⟩]
  exact cleanupIntent_eq hread.2 hread.1

/-- The staged pair that an intent announces validates. -/
lemma validateStagedPair_of_stagedIs (hnames : intent.NamesPrivate)
    (hnext : Announces host intent registry)
    (hstaged : StagedIs host commits d intent.transactionUuid registry) :
    validateStagedPair host d intent = .ok () := by
  have hmatch : ¬ (hex (host.sha256 (registryBytes host registry)) ≠ registryDigest host registry ∨
      checksumText (registryDigest host registry) ≠ checksumText (registryDigest host registry)) :=
    not_or.mpr ⟨not_not.mpr rfl, not_not.mpr rfl⟩
  have hcanonical : ¬ (registryBytes host registry ≠ registryBytes host registry ∨
      registry.revision ≠ intent.nextRevision) :=
    not_or.mpr ⟨not_not.mpr rfl, not_not.mpr hnext.revision.symm⟩
  unfold validateStagedPair
  rw [hnames.registryTemp, hnames.checksumTemp, hnext.digest,
    readRegularBounded_eq hstaged.json hstaged.committed.length_le, ok_bind,
    readRegularBounded_eq hstaged.sha256 (length_checksum_le _), ok_bind, refuseIf_of_not hmatch, ok_bind,
    hstaged.committed.fromSlice hserde]
  show (canonicalBytes host registry >>= _) = _
  rw [hstaged.committed.bytes, ok_bind, refuseIf_of_not hcanonical]

/-- With the previous pair in place and the next one staged, recovery rolls back. -/
lemma rollsBack_of_staged (hintent : readIntent host d = .ok intent)
    (hpair : PairIs host commits d pair)
    (hrevision : intent.previousRevision = pair.map Registry.revision)
    (hdigest : intent.previousSha256 = pair.map (registryDigest host))
    (hother : ∀ current ∈ pair, ¬ Announces host intent current)
    (hnext : Announces host intent registry)
    (hstaged : StagedIs host commits d intent.transactionUuid registry) :
    RollsBack host d intent where
  read := hintent
  previous := by
    unfold PreviousInPlace
    rw [readValidPair_of_pairIs hserde hpair]
    cases pair with
    | none => exact hrevision
    | some current =>
      refine ⟨?_, hrevision.symm, hdigest.symm⟩
      intro hsame
      exact hother current rfl ⟨hsame.1.symm, hsame.2.symm⟩
  staged := validateStagedPair_of_stagedIs hserde (of_readIntent hintent).2 hnext hstaged

end

/-- Recovery undoes the commit over the previous pair, or refuses to. -/
lemma recoverPair_of_previousInPlace (hread : readIntent host d = .ok intent)
    (hprevious : PreviousInPlace host d intent) :
    (recoverPair host).run d = (rollBack host intent).run d := by
  rw [recoverPair_of_readIntent hread]
  unfold recoverIntent PreviousInPlace at *
  rw [Program.read_bind]
  cases hpair : readValidPair host d with
  | error e => rw [hpair] at hprevious; cases hprevious
  | ok found =>
    rw [hpair] at hprevious
    cases found with
    | none =>
      have hfiles : d registryFile = none ∧ d checksumFile = none := by
        unfold readValidPair at hpair
        by_contra hsome
        rw [if_neg hsome] at hpair
        obtain ⟨_, -, hpair⟩ := bind_eq_ok_iff.mp hpair
        obtain ⟨_, -, hpair⟩ := bind_eq_ok_iff.mp hpair
        cases hpair
      show (recoverUnpaired host intent).run d = _
      unfold recoverUnpaired
      rw [Program.read_bind, if_pos ⟨hprevious, hfiles⟩]
    | some found =>
      obtain ⟨hother, hmatch⟩ := hprevious
      show (if _ then _ else if _ then _ else _ : Fs Unit).run d = _
      rw [if_neg hother, if_pos hmatch]

/-- Rolling back is a cleanup. -/
lemma RollsBack.recoverPair_eq (h : RollsBack host d intent) :
    (recoverPair host).run d = (cleanupSteps d intent.transactionUuid, .ok ()) := by
  have hread := of_readIntent h.read
  rw [recoverPair_of_previousInPlace h.read h.previous]
  unfold rollBack
  rw [Program.read_bind, Program.ofExcept_bind h.staged]
  exact cleanupIntent_eq hread.2 hread.1

/-- Renaming the checksum completes the pair. -/
lemma pairIs_rename {uuid : Uuid} (hcommitted : Committed host commits registry)
    (hregistry : d registryFile = some (registryBytes host registry))
    (hstaged : d (privateName uuid "sha256") = some (checksumText (registryDigest host registry))) :
    PairIs host commits (Step.apply d (.rename (privateName uuid "sha256") checksumFile))
      (some registry) := by
  refine ⟨hcommitted, ?_, ?_⟩
  · rw [Step.apply_rename_of_ne (by simp) (by simp)]
    exact hregistry
  · rw [Step.apply_rename_target (by simp)]
    exact hstaged

/-- The registry has been replaced: recovery renames the checksum and removes the intent. -/
lemma recoverPair_of_half (hserde : host.RoundTrips commits)
    (hintent : readIntent host d = .ok intent) (hnext : Announces host intent registry)
    (hcommitted : Committed host commits registry)
    (hregistry : d registryFile = some (registryBytes host registry))
    (hchecksum : d checksumFile ≠ some (checksumText (registryDigest host registry)))
    (hstaged : d (privateName intent.transactionUuid "sha256")
      = some (checksumText (registryDigest host registry))) :
    (recoverPair host).run d
      = (.rename (privateName intent.transactionUuid "sha256") checksumFile :: cleanupSteps
            (Step.apply d (.rename (privateName intent.transactionUuid "sha256") checksumFile))
            intent.transactionUuid, .ok ()) := by
  have hread := of_readIntent hintent
  set u := intent.transactionUuid with hu
  set d₁ := Step.apply d (.rename (privateName u "sha256") checksumFile) with hd₁
  have hpair₂ := (pairIs_rename hcommitted hregistry hstaged).cleanup u d₁
  have hintent₁ : (d₁ intentFile).isSome = true := by
    exact hread.1
  rw [recoverPair_of_readIntent hintent]
  -- the pair in place cannot be read
  obtain ⟨e, hfail⟩ := readRegistry_of_mismatch hregistry hchecksum
  have hinvalid : readValidPair host d = .error e := by
    unfold readValidPair
    rw [if_neg (by rw [hregistry]; simp), hfail]
    rfl
  unfold recoverIntent
  rw [Program.read_bind, hinvalid]
  show (recoverUnpaired host intent).run d = _
  unfold recoverUnpaired
  rw [Program.read_bind, if_neg (by rw [hregistry]; simp)]
  have hmatch : ¬ (hex (host.sha256 (registryBytes host registry)) ≠ intent.nextSha256) :=
    not_not.mpr hnext.digest.symm
  have hmatch' : ¬ (checksumText (registryDigest host registry) ≠ checksumText intent.nextSha256) :=
    not_not.mpr (by rw [hnext.digest])
  unfold rollForward
  rw [Program.read_bind, Program.ofExcept_bind (readRegularBounded_eq hregistry hcommitted.length_le),
    Program.ofExcept_bind (refuseIf_of_not hmatch), hread.2.checksumTemp,
    Program.ofExcept_bind (readRegularBounded_eq hstaged (length_checksum_le _)),
    Program.ofExcept_bind (refuseIf_of_not hmatch'),
    Program.bind_of_ok (makeVisible_eq (by rw [hstaged]; rfl)), applyAll_cons, applyAll_nil, ← hd₁,
    Program.bind_of_ok (cleanupIntent_eq hread.2 hintent₁), ← hu, Program.read_bind,
    Program.ofExcept_bind (readRegistry_of_pairIs hserde hpair₂)]
  show ([_] ++ (cleanupSteps d₁ u ++ []), Except.ok ()) = _
  rw [append_nil]
  rfl

/-- Recovery of a recoverable directory succeeds, and leaves nothing pending. -/
theorem exists_recoverPair_of_recoverable (hserde : host.RoundTrips commits)
    (h : Recoverable host commits d pair) :
    ∃ steps, (recoverPair host).run d = (steps, .ok ()) ∧ applyAll d steps intentFile = none ∧
      PairIs host commits (applyAll d steps) pair := by
  cases h with
  | idle hintent hpair => exact ⟨[], recoverPair_of_idle hserde hintent hpair, hintent, hpair⟩
  | replaced hintent hnext hpair =>
    exact ⟨_, recoverPair_of_replaced hserde hintent hnext hpair, applyAll_cleanupSteps_intent,
      hpair.cleanup _ _⟩
  | staged hintent hpair hrevision hdigest hother hnext hstaged =>
    exact ⟨_, (rollsBack_of_staged hserde hintent hpair hrevision hdigest hother hnext
      hstaged).recoverPair_eq, applyAll_cleanupSteps_intent, hpair.cleanup _ _⟩
  | half hintent hnext hcommitted hregistry hchecksum hstaged =>
    refine ⟨_, recoverPair_of_half hserde hintent hnext hcommitted hregistry hchecksum hstaged,
      applyAll_cleanupSteps_intent, ?_⟩
    exact (pairIs_rename hcommitted hregistry hstaged).cleanup _ _

end Recoverable

end GraphForge.Checkpoints
