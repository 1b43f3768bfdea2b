import GraphForge.Lib.Outcome
import GraphForge.Uuid
import Mathlib.Data.Prod.Lex

/-!
# Knowledge records

What the append-only ledgers of the knowledge crate share: errors, the checks of identifiers, the
order of record, which is by transaction time and then by event identifier, and the merge of staged
rows into a base.
-/

namespace GraphForge.Knowledge

open List Except

/-- The errors of the knowledge records. -/
inductive KnowledgeError where
  | invalid (field message : String)
  | limit (participant : String) (observed limit : ℕ)
  | duplicate (field : String)
  | dangling (field : String)
  | conflict (field : String)
  deriving DecidableEq, Repr

/-- The row bound of every participant. -/
def maxKnowledgeRows : ℕ := 1000000

/-- The version number of a UUID: the high half of its seventh byte. -/
def versionOf (u : Uuid) : ℕ := u.val / 2 ^ 76 % 16

/-- `require_uuid`. -/
def requireUuid (u : Uuid) (field : String) : Except KnowledgeError Unit :=
  refuseIf (u = 0) (.invalid field "must not be nil")

/-- `require_v7`. -/
def requireV7 (u : Uuid) (field : String) : Except KnowledgeError Unit := do
  refuseIf (versionOf u ≠ 7) (.invalid field "must be UUIDv7")
  requireUuid u field

/-- `require_v7` on a value that may be absent. -/
def requireV7Opt (u : Option Uuid) (field : String) : Except KnowledgeError Unit :=
  match u with
  | none => .ok ()
  | some u => requireV7 u field

/-- Transaction times are microseconds; ties are broken by event identifier. -/
abbrev RecordKey := ℤ ×ₗ Uuid

/-- The place of a record: its time, and then its identifier. -/
def recordKey (recordedAt : ℤ) (event : Uuid) : RecordKey := toLex (recordedAt, event)

lemma recordKey_injective {t t' : ℤ} {e e' : Uuid} (h : recordKey t e = recordKey t' e') :
    t = t' ∧ e = e' := Prod.mk.inj (toLex.injective h)

/-! ## Rows of one family -/

section
variable {ρ : Type}

/-- Every row on its own, and that no identifier is repeated. -/
def validateIds (validate : ρ → Except KnowledgeError Unit) (id : ρ → Uuid) (field : String) :
    List Uuid → List ρ → Except KnowledgeError Unit
  | _, [] => .ok ()
  | ids, row :: rows => do
    validate row
    refuseIf (id row ∈ ids) (.duplicate field)
    validateIds validate id field (id row :: ids) rows

/-- Valid rows: each one on its own, and no identifier twice. -/
structure RowsValid (validate : ρ → Except KnowledgeError Unit) (id : ρ → Uuid) (rows : List ρ) :
    Prop where
  valid : ∀ row ∈ rows, validate row = .ok ()
  nodup : (rows.map id).Nodup

/-- No key is repeated, and none is one of those seen before. -/
def Fresh {κ : Type} (key : ρ → κ) (seen : List κ) (rows : List ρ) : Prop :=
  (rows.map key).Nodup ∧ ∀ row ∈ rows, key row ∉ seen

/-- Freshness, one row after the other. -/
lemma fresh_cons {κ : Type} {key : ρ → κ} {seen : List κ} {row : ρ} {rows : List ρ} :
    Fresh key seen (row :: rows) ↔ key row ∉ seen ∧ Fresh key (key row :: seen) rows := by
  unfold Fresh
  rw [map_cons, nodup_cons, forall_mem_cons, mem_map]
  simp only [mem_cons, not_or, forall_and, not_exists, not_and]
  tauto

variable {validate : ρ → Except KnowledgeError Unit} {id : ρ → Uuid} {field : String}

/-- The loop accepts rows that are valid one by one and whose identifiers are new. -/
lemma validateIds_iff {ids : List Uuid} {rows : List ρ} :
    validateIds validate id field ids rows = .ok () ↔
      (∀ row ∈ rows, validate row = .ok ()) ∧ Fresh id ids rows := by
  induction rows generalizing ids with
  | nil => simp [validateIds, Fresh]
  | cons row rows ih =>
    rw [validateIds]
    simp only [check_bind_eq_ok_iff, refuseIf_eq_ok_iff, ih, forall_mem_cons, fresh_cons]
    tauto

/-- From no identifiers, the loop accepts valid rows. -/
lemma validateIds_nil_iff {rows : List ρ} :
    validateIds validate id field [] rows = .ok () ↔ RowsValid validate id rows := by
  rw [validateIds_iff]
  exact ⟨fun h => ⟨h.1, h.2.1⟩, fun h => ⟨h.valid, h.nodup, by simp⟩⟩

lemma RowsValid.perm {rows rows' : List ρ} (h : RowsValid validate id rows)
    (hperm : rows.Perm rows') : RowsValid validate id rows' :=
  ⟨fun r hr => h.valid r (hperm.mem_iff.mpr hr), ((hperm.map _).nodup_iff).mp h.nodup⟩

lemma RowsValid.sublist {rows rows' : List ρ} (h : RowsValid validate id rows)
    (hsub : rows'.Sublist rows) : RowsValid validate id rows' :=
  ⟨fun r hr => h.valid r (hsub.subset hr), h.nodup.sublist (hsub.map _)⟩

/-- Rows with distinct identifiers have distinct keys of record. -/
lemma RowsValid.nodup_key {rows : List ρ} (h : RowsValid validate id rows) (time : ρ → ℤ) :
    (rows.map fun row => recordKey (time row) (id row)).Nodup := by
  have hinj := inj_on_of_nodup_map h.nodup
  apply Nodup.map_on _ h.nodup.of_map
  intro a ha b hb hkey
  exact hinj ha hb (recordKey_injective hkey).2

/-! ## Merging staged rows -/

variable [DecidableEq ρ]

/-- One staged row of a merge: a replay of a row that is there, or a new row that is admitted. The
second list is the index by identifier, newest first. -/
def mergeRow (id : ρ → Uuid) (field : String) (admission : List ρ → ρ → Except KnowledgeError Unit)
    (acc : List ρ × List ρ) (row : ρ) : Except KnowledgeError (List ρ × List ρ) :=
  match acc.2.find? (id · = id row) with
  | some current => do
    refuseIf (current ≠ row) (.conflict field)
    return acc
  | none => do
    admission acc.1 row
    return (acc.1 ++ [row], row :: acc.2)

/-- The rows after some staged ones: those of the base and the staged ones, each once; a row that
the base does not have was admitted. -/
structure Merging (id : ρ → Uuid) (admission : List ρ → ρ → Except KnowledgeError Unit)
    (base staged : List ρ) (acc : List ρ × List ρ) : Prop where
  nodup : (acc.1.map id).Nodup
  index : ∀ row, row ∈ acc.2 ↔ row ∈ acc.1
  mem : ∀ row, row ∈ acc.1 ↔ row ∈ base ∨ row ∈ staged
  admitted : ∀ row ∈ staged, row ∉ base → ∃ rows, admission rows row = .ok ()

variable {admission : List ρ → ρ → Except KnowledgeError Unit}

/-- One staged row more. -/
lemma Merging.step {base staged : List ρ} {acc acc' : List ρ × List ρ} {row : ρ}
    (h : Merging id admission base staged acc) (hstep : mergeRow id field admission acc row = .ok acc') :
    Merging id admission base (staged ++ [row]) acc' := by
  unfold mergeRow at hstep
  split at hstep
  next existing hfind =>
    -- a row that is there already, and is the same
    obtain ⟨_, hsame, hacc⟩ := bind_eq_ok_iff.mp hstep
    rw [refuseIf_eq_ok_iff, not_not] at hsame
    obtain rfl := Except.ok.inj hacc
    subst hsame
    have hmem : existing ∈ acc.1 := (h.index existing).mp (mem_of_find?_eq_some hfind)
    refine ⟨h.nodup, h.index, ?_, ?_⟩
    · intro r
      rw [h.mem, mem_append, mem_singleton, ← or_assoc]
      constructor
      · exact Or.inl
      · rintro (hr | rfl)
        · exact hr
        · exact (h.mem _).mp hmem
    · intro r hr hbase
      rcases mem_append.mp hr with hr | hr
      · exact h.admitted r hr hbase
      · rw [mem_singleton.mp hr] at hbase ⊢
        exact h.admitted existing (((h.mem existing).mp hmem).resolve_left hbase) hbase
  next hfind =>
    obtain ⟨_, hadmit, hacc⟩ := bind_eq_ok_iff.mp hstep
    obtain rfl := Except.ok.inj hacc
    have hfresh : ∀ r ∈ acc.1, id r ≠ id row := by
      intro r hr heq
      have := find?_eq_none.mp hfind r ((h.index r).mpr hr)
      simp [heq] at this
    refine ⟨?_, ?_, ?_, ?_⟩
    · rw [map_append, nodup_append]
      refine ⟨h.nodup, by simp, ?_⟩
      intro u hu v hv
      obtain ⟨r, hr, rfl⟩ := mem_map.mp hu
      rw [mem_singleton.mp hv]
      exact hfresh r hr
    · intro r
      rw [mem_cons, mem_append, mem_singleton, h.index, or_comm]
    · intro r
      rw [mem_append, mem_append, h.mem, or_assoc]
    · intro r hr hbase
      rcases mem_append.mp hr with hr | hr
      · exact h.admitted r hr hbase
      · rw [mem_singleton.mp hr]
        exact ⟨acc.1, hadmit⟩

/-- What merging staged rows into a base leads to. -/
lemma Merging.of_foldlM {base staged : List ρ} (hbase : (base.map id).Nodup) {acc : List ρ × List ρ}
    (h : staged.foldlM (mergeRow id field admission) (base, base.reverse) = .ok acc) :
    Merging id admission base staged acc := by
  refine invariant_of_foldlM h ⟨hbase, by simp, by simp, by simp⟩ ?_
  intro seen acc row acc' hseen hstep
  exact hseen.step hstep

end

/-! ## Columns -/

/-- A UUID column read back: `uuid_at`. -/
def uuidAt (bytes : List UInt8) (field : String) : Except KnowledgeError Uuid :=
  ofOption (.invalid field "invalid UUID bytes") (Uuid.ofBytes bytes)

/-- `optional_uuid_at`. -/
def optionalUuidAt (bytes : Option (List UInt8)) (field : String) :
    Except KnowledgeError (Option Uuid) :=
  match bytes with
  | none => .ok none
  | some bytes => (uuidAt bytes field).map some

@[simp] lemma uuidAt_toBytes (u : Uuid) (field : String) : uuidAt u.toBytes field = .ok u := by
  rw [uuidAt, Uuid.ofBytes_toBytes]
  rfl

@[simp] lemma optionalUuidAt_toBytes (u : Option Uuid) (field : String) :
    optionalUuidAt (u.map Uuid.toBytes) field = .ok u := by
  cases u with
  | none => rfl
  | some u =>
    show (uuidAt u.toBytes field).map some = _
    rw [uuidAt_toBytes]
    rfl

end GraphForge.Knowledge
