import GraphForge.Checkpoints.RegistryCommit

/-!
# The steps of a commit and of a recovery

From a directory whose pair can be read, a commit takes the same steps whatever the result: it
stages the pair, stages the intent, makes the intent visible, and renames the two files. This file
gives these lists of steps, and what they leave under each name.
-/

namespace GraphForge.Checkpoints

open List Function

open Except (refuseIf)
open CrashFs

/-! ## Names -/

lemma length_hyphenated (u : Uuid) : u.hyphenated.length = 36 := by
  have hdigits : (hexText u.toBytes).length = 32 := by
    rw [length_hexText, Uuid.length_toBytes]
  unfold Uuid.hyphenated
  rw [String.length_ofList]
  rfl

/-- The length of a private name. -/
lemma length_privateName (u : Uuid) (kind : String) :
    (privateName u kind).length = 52 + kind.length := by
  unfold privateName
  simp only [String.length_append, length_hyphenated]
  have hstart : ".registry.".length = 10 := by decide
  have hdot : ".".length = 1 := by decide
  have hend : ".next".length = 5 := by decide
  omega

/-- A private name says its transaction and its kind. -/
@[simp] lemma privateName_inj (u v : Uuid) (kind kind' : String) :
    privateName u kind = privateName v kind' ↔ u = v ∧ kind = kind' := by
  refine ⟨fun h => ?_, fun ⟨hu, hkind⟩ => hu ▸ hkind ▸ rfl⟩
  -- the texts of two UUIDs are of one length
  have hlist := congrArg String.toList h
  simp only [privateName, String.toList_append, append_assoc] at hlist
  obtain ⟨hu, hrest⟩ := append_inj (append_cancel_left hlist)
    (by simp only [String.length_toList, length_hyphenated])
  exact ⟨Uuid.hyphenated_injective (String.toList_inj.mp hu),
    String.toList_inj.mp (append_cancel_right (append_cancel_left hrest))⟩

/-- The names that are not private are shorter. -/
lemma ne_privateName {name : String} (h : name.length < 52) (u : Uuid) (kind : String) :
    name ≠ privateName u kind := by
  intro heq
  have := congrArg String.length heq
  rw [length_privateName] at this
  omega

@[simp] lemma file_ne_privateName (u : Uuid) (kind : String) :
    registryFile ≠ privateName u kind ∧ checksumFile ≠ privateName u kind ∧
      intentFile ≠ privateName u kind :=
  ⟨ne_privateName (by decide) u kind, ne_privateName (by decide) u kind,
    ne_privateName (by decide) u kind⟩

@[simp] lemma privateName_ne_file (u : Uuid) (kind : String) :
    privateName u kind ≠ registryFile ∧ privateName u kind ≠ checksumFile ∧
      privateName u kind ≠ intentFile :=
  ⟨(file_ne_privateName u kind).1.symm, (file_ne_privateName u kind).2.1.symm,
    (file_ne_privateName u kind).2.2.symm⟩

@[simp] lemma file_ne_file :
    registryFile ≠ checksumFile ∧ registryFile ≠ intentFile ∧ checksumFile ≠ intentFile ∧
      intentFile ≠ registryFile ∧ intentFile ≠ checksumFile := by
  decide

/-! ## Single programs -/

/-- The step that removes a file, if it is there. -/
def unlinkSteps (d : Directory) (name : String) : List (Step String UInt8) :=
  if (d name).isSome then [.unlink name] else []

/-- The program takes the steps of an unlink, and succeeds. -/
lemma unlinkIfPresent_eq (name : String) (d : Directory) :
    (unlinkIfPresent name).run d = (unlinkSteps d name, .ok ()) := by
  unfold unlinkIfPresent unlinkSteps
  rw [Program.read_bind]
  by_cases h : (d name).isSome = true
  · rw [if_pos h, if_pos h]
    rfl
  · rw [if_neg h, if_neg h]
    rfl

lemma applyAll_unlinkSteps_self (d : Directory) (name : String) :
    applyAll d (unlinkSteps d name) name = none := by
  unfold unlinkSteps
  by_cases h : (d name).isSome = true
  · rw [if_pos h]
    exact update_self _ _ _
  · rw [if_neg h]
    exact Option.not_isSome_iff_eq_none.mp h

/-- An unlink touches one name. -/
lemma touches_unlinkSteps (d : Directory) (name : String) : Touches (unlinkSteps d name) [name] := by
  unfold unlinkSteps
  split
  · simp [Touches, Step.names]
  · simp [Touches]

variable (host : Host)

/-- The steps that write a new file. -/
def writeSteps (name : String) (bytes : List UInt8) : List (Step String UInt8) :=
  .create name :: (host.pieces bytes).map (.append name)

/-- A write touches one name. -/
lemma touches_writeSteps (name : String) (bytes : List UInt8) :
    Touches (writeSteps host name bytes) [name] := by
  simp [Touches, writeSteps, Step.names]

/-- What the first `n + 1` steps have written. -/
lemma applyAll_take_writeSteps (d : Directory) (name : String) (bytes : List UInt8) (n : ℕ) :
    applyAll d ((writeSteps host name bytes).take (n + 1)) name
      = some ((host.pieces bytes).take n).flatten := by
  have hcreated : Step.apply d (.create name) name = some [] := update_self _ _ _
  have hpieces := applyAll_append_pieces hcreated ((host.pieces bytes).take n)
  rw [nil_append, map_take] at hpieces
  exact hpieces

/-- Writing a new file takes the steps of a write. -/
lemma writeNewSynced_eq {host : Host} {name : String} {bytes : List UInt8} {d : Directory}
    (h : d name = none) :
    (writeNewSynced host name bytes).run d = (writeSteps host name bytes, .ok ()) := by
  unfold writeNewSynced
  rw [Program.read_bind, if_neg (by rw [h]; exact Bool.false_ne_true)]
  rfl

/-- A rename of a file that is there is one step. -/
lemma makeVisible_eq {source target : String} {d : Directory} (h : (d source).isSome = true) :
    (makeVisible source target).run d = ([.rename source target], .ok ()) := by
  unfold makeVisible
  rw [Program.read_bind, if_pos h]
  rfl

/-- An unlink of a file that is there is one step. -/
lemma retire_eq {name : String} {d : Directory} (h : (d name).isSome = true) :
    (retire name).run d = ([.unlink name], .ok ()) := by
  unfold retire
  rw [Program.read_bind, if_pos h]
  rfl

/-- How the host writes: the pieces of a buffer are not empty and make up the buffer. -/
structure Host.WritesWhole (host : Host) : Prop where
  flatten : ∀ bytes, (host.pieces bytes).flatten = bytes
  ne_nil : ∀ bytes, ∀ piece ∈ host.pieces bytes, piece ≠ []

/-- After the steps of a write the file holds the bytes. -/
lemma applyAll_writeSteps {host : Host} (hwhole : host.WritesWhole) (d : Directory) (name : String)
    (bytes : List UInt8) : applyAll d (writeSteps host name bytes) name = some bytes := by
  have h := applyAll_take_writeSteps host d name bytes (host.pieces bytes).length
  rw [take_of_length_le (by simp [writeSteps]), take_length, hwhole.flatten] at h
  exact h

/-- A file that is still being written is shorter than it will be. -/
lemma length_take_pieces_lt {host : Host} (hwhole : host.WritesWhole) {bytes : List UInt8} {n : ℕ}
    (hn : n < (host.pieces bytes).length) :
    ((host.pieces bytes).take n).flatten.length < bytes.length := by
  have hsplit : bytes.length
      = ((host.pieces bytes).take n).flatten.length + ((host.pieces bytes).drop n).flatten.length := by
    rw [← length_append, ← flatten_append, take_append_drop, hwhole.flatten]
  -- at least one piece is missing, and it is not empty
  have hmissing : (host.pieces bytes)[n] ∈ host.pieces bytes := getElem_mem hn
  have hpiece := length_pos_of_ne_nil (hwhole.ne_nil bytes _ hmissing)
  rw [drop_eq_getElem_cons hn, flatten_cons, length_append] at hsplit
  omega

lemma unlinkSteps_congr {d d' : Directory} {name : String} (h : d' name = d name) :
    unlinkSteps d' name = unlinkSteps d name := by
  unfold unlinkSteps
  rw [h]

/-! ## Cleanup -/

/-- The steps of `cleanup_intent`. -/
def cleanupSteps (d : Directory) (uuid : Uuid) : List (Step String UInt8) :=
  unlinkSteps d (privateName uuid "json")
    ++ (unlinkSteps d (privateName uuid "sha256") ++ [.unlink intentFile])

/-- An intent names the private files of its transaction. -/
structure RegistryIntent.NamesPrivate (intent : RegistryIntent) : Prop where
  registryTemp : intent.registryTemp = privateName intent.transactionUuid "json"
  checksumTemp : intent.checksumTemp = privateName intent.transactionUuid "sha256"

/-- Cleaning up takes its steps, and succeeds while the intent is there. -/
lemma cleanupIntent_eq {intent : RegistryIntent} {d : Directory} (hnames : intent.NamesPrivate)
    (hintent : (d intentFile).isSome = true) :
    (cleanupIntent intent).run d = (cleanupSteps d intent.transactionUuid, .ok ()) := by
  unfold cleanupIntent cleanupSteps
  rw [hnames.registryTemp, hnames.checksumTemp]
  rw [Program.bind_of_ok (unlinkIfPresent_eq _ _), Program.bind_of_ok (unlinkIfPresent_eq _ _),
    unlinkSteps_congr ((touches_unlinkSteps _ _).frame (by simp)), retire_eq]
  rw [(touches_unlinkSteps _ _).frame (by simp), (touches_unlinkSteps _ _).frame (by simp)]
  exact hintent

/-! ## Commit -/

/-- The steps of staging the pair. -/
def stagingSteps (d : Directory) (uuid : Uuid) (next : List UInt8) : List (Step String UInt8) :=
  unlinkSteps d (privateName uuid "json") ++ (unlinkSteps d (privateName uuid "sha256")
    ++ (writeSteps host (privateName uuid "json") next
      ++ writeSteps host (privateName uuid "sha256") (checksumText (hex (host.sha256 next)))))

/-- The steps of staging the intent. -/
def intentSteps (d : Directory) (intent : RegistryIntent) : List (Step String UInt8) :=
  unlinkSteps d (privateName intent.transactionUuid "txn")
    ++ writeSteps host (privateName intent.transactionUuid "txn") (host.intentToVec intent ++ [10])

/-- The renames, and the removal of the intent. -/
def publishSteps (uuid : Uuid) : List (Step String UInt8) :=
  [.rename (privateName uuid "txn") intentFile, .rename (privateName uuid "json") registryFile,
    .rename (privateName uuid "sha256") checksumFile, .unlink intentFile]

/-- Staging the pair takes its steps, and succeeds. -/
lemma stagePair_eq (uuid : Uuid) (next : List UInt8) (d : Directory) :
    (stagePair host uuid next).run d = (stagingSteps host d uuid next, .ok ()) := by
  unfold stagePair stagingSteps
  have hsha : unlinkSteps (applyAll d (unlinkSteps d (privateName uuid "json")))
      (privateName uuid "sha256") = unlinkSteps d (privateName uuid "sha256") :=
    unlinkSteps_congr ((touches_unlinkSteps _ _).frame (by simp))
  rw [Program.bind_of_ok (unlinkIfPresent_eq _ _), Program.bind_of_ok (unlinkIfPresent_eq _ _), hsha]
  -- both names are free by now
  have hjson : applyAll (applyAll d (unlinkSteps d (privateName uuid "json")))
      (unlinkSteps d (privateName uuid "sha256")) (privateName uuid "json") = none := by
    rw [(touches_unlinkSteps _ _).frame (by simp)]
    exact applyAll_unlinkSteps_self d _
  rw [Program.bind_of_ok (writeNewSynced_eq hjson), writeNewSynced_eq]
  rw [(touches_writeSteps _ _ _).frame (by simp), ← hsha]
  exact applyAll_unlinkSteps_self _ _

/-- Staging the intent takes its steps, and succeeds. -/
lemma stageIntent_eq (intent : RegistryIntent) (d : Directory) :
    (stageIntent host intent).run d = (intentSteps host d intent, .ok ()) := by
  unfold stageIntent intentSteps
  rw [Program.bind_of_ok (unlinkIfPresent_eq _ _),
    writeNewSynced_eq (applyAll_unlinkSteps_self d _)]

/-- Publishing is three renames when the staged files are there. -/
lemma publishPair_eq {uuid : Uuid} {d : Directory}
    (htxn : (d (privateName uuid "txn")).isSome = true)
    (hjson : (d (privateName uuid "json")).isSome = true)
    (hsha : (d (privateName uuid "sha256")).isSome = true) :
    (publishPair uuid).run d = (publishSteps uuid, .ok ()) := by
  unfold publishPair publishSteps
  -- the directories after the first, the second and the third rename
  set d₁ := Step.apply d (.rename (privateName uuid "txn") intentFile) with hd₁
  set d₂ := Step.apply d₁ (.rename (privateName uuid "json") registryFile) with hd₂
  set d₃ := Step.apply d₂ (.rename (privateName uuid "sha256") checksumFile) with hd₃
  have hjson₁ : (d₁ (privateName uuid "json")).isSome = true := by
    rw [hd₁, Step.apply_rename_of_ne (by simp) (by simp)]
    exact hjson
  have hsha₂ : (d₂ (privateName uuid "sha256")).isSome = true := by
    rw [hd₂, Step.apply_rename_of_ne (by simp) (by simp), hd₁,
      Step.apply_rename_of_ne (by simp) (by simp)]
    exact hsha
  have hintent₃ : (d₃ intentFile).isSome = true := by
    rw [hd₃, Step.apply_rename_of_ne (by simp) (by simp), hd₂,
      Step.apply_rename_of_ne (by simp) (by simp), hd₁,
      Step.apply_rename_target (by simp)]
    exact htxn
  rw [Program.bind_of_ok (makeVisible_eq htxn), applyAll_cons, applyAll_nil, ← hd₁,
    Program.bind_of_ok (makeVisible_eq hjson₁), applyAll_cons, applyAll_nil, ← hd₂,
    Program.bind_of_ok (makeVisible_eq hsha₂), applyAll_cons, applyAll_nil, ← hd₃,
    retire_eq hintent₃]
  rfl

/-! ## What staging leaves -/

section Staged

variable {host : Host} {d : Directory} {uuid : Uuid} {next : List UInt8} {intent : RegistryIntent}
  {name : String}

/-- Staging touches the private names of the pair. -/
lemma touches_stagingSteps (d' : Directory) :
    Touches (stagingSteps host d' uuid next) [privateName uuid "json", privateName uuid "sha256"] :=
  ((touches_unlinkSteps _ _).mono (by simp)).append (((touches_unlinkSteps _ _).mono (by simp)).append
    (((touches_writeSteps _ _ _).mono (by simp)).append ((touches_writeSteps _ _ _).mono (by simp))))

lemma touches_intentSteps (d' : Directory) :
    Touches (intentSteps host d' intent) [privateName intent.transactionUuid "txn"] :=
  (touches_unlinkSteps _ _).append (touches_writeSteps _ _ _)

section
variable (hwhole : host.WritesWhole) {d' : Directory}
include hwhole

/-- The registry is staged. -/
lemma applyAll_stagingSteps_json :
    applyAll d (stagingSteps host d' uuid next) (privateName uuid "json") = some next := by
  unfold stagingSteps
  rw [applyAll_append, applyAll_append, applyAll_append, (touches_writeSteps _ _ _).frame (by simp)]
  exact applyAll_writeSteps hwhole _ _ _

/-- Its checksum is staged. -/
lemma applyAll_stagingSteps_sha256 :
    applyAll d (stagingSteps host d' uuid next) (privateName uuid "sha256")
      = some (checksumText (hex (host.sha256 next))) := by
  unfold stagingSteps
  rw [applyAll_append, applyAll_append, applyAll_append]
  exact applyAll_writeSteps hwhole _ _ _

/-- The intent is staged. -/
lemma applyAll_intentSteps_txn :
    applyAll d (intentSteps host d' intent) (privateName intent.transactionUuid "txn")
      = some (host.intentToVec intent ++ [10]) := by
  unfold intentSteps
  rw [applyAll_append]
  exact applyAll_writeSteps hwhole _ _ _

end

/-- The steps of a commit over a pair that can be read. -/
theorem commitRegistry_eq (hwhole : host.WritesWhole) {registry : Registry}
    {previous : Option (Registry × String)} (hnext : canonicalBytes host registry = .ok next)
    (hprevious : readValidPair host d = .ok previous) :
    (commitRegistry host registry uuid).run d
      = (stagingSteps host d uuid next
          ++ (intentSteps host d (intentFor host previous uuid registry next)
            ++ publishSteps uuid), .ok ()) := by
  unfold commitRegistry
  rw [Program.ofExcept_bind hnext, Program.read_bind, Program.ofExcept_bind hprevious,
    Program.bind_of_ok (stagePair_eq host uuid next d), Program.bind_of_ok (stageIntent_eq ..)]
  set intent := intentFor host previous uuid registry next with hintent
  have hsame : intentSteps host (applyAll d (stagingSteps host d uuid next)) intent
      = intentSteps host d intent := by
    unfold intentSteps
    rw [unlinkSteps_congr ((touches_stagingSteps _).frame (by simp [hintent]))]
  rw [hsame, publishPair_eq]
  · have htxn : applyAll (applyAll d (stagingSteps host d uuid next)) (intentSteps host d intent)
        (privateName uuid "txn") = some (host.intentToVec intent ++ [10]) :=
      applyAll_intentSteps_txn hwhole
    rw [htxn]
    rfl
  · rw [(touches_intentSteps _).frame (by simp [hintent]), applyAll_stagingSteps_json hwhole]
    rfl
  · rw [(touches_intentSteps _).frame (by simp [hintent]), applyAll_stagingSteps_sha256 hwhole]
    rfl

end Staged

end GraphForge.Checkpoints
