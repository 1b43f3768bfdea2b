import GraphForge.DeltaJournal.Run
import GraphForge.Lib.Xxh64

/-!
# The delta run codec

A run file is a header, the frames of its records one after the other, and a checksum of
all that (`runBytes`). Reading a frame at the cursor and having a frame at the cursor are
the same thing; by induction over the records, `decodeDeltaRun` gives back what
`encodeDeltaRun` wrote, and accepts nothing but such files.
-/

namespace GraphForge.DeltaJournal

open List Bytes Slices Except

section
variable {L : Type} {json : Json L} {checksum : List UInt8 → ℕ}

/-! ## Fields -/

@[simp] lemma length_sum8 (bytes : List UInt8) : (sum8 checksum bytes).length = 8 :=
  length_leBytes 8 _

@[simp] lemma length_runHeader (runSequence : ℕ) (runUuid transactionUuid : Uuid) (n : ℕ) :
    (runHeader runSequence runUuid transactionUuid n).length = 52 := by
  simp [runHeader, magic]

section
variable (uuid : Uuid) (i : ℕ) (kind : GraphDeltaOpKind) (payload : List UInt8)

@[simp] lemma length_recordBytes :
    (recordBytes uuid i kind payload).length = 29 + payload.length := by
  simp [recordBytes]
  omega

@[simp] lemma length_recordFrame :
    (recordFrame checksum uuid i kind payload).length = 37 + payload.length := by
  rw [recordFrame, length_append, length_recordBytes, length_sum8]
  omega

end

lemma fromU8_toU8 (kind : GraphDeltaOpKind) : GraphDeltaOpKind.fromU8 kind.toU8 = .ok kind := by
  cases kind <;> rfl

/-- A kind is written as the byte it was read from. -/
lemma toU8_of_fromU8 {b : UInt8} {kind : GraphDeltaOpKind}
    (h : GraphDeltaOpKind.fromU8 b = .ok kind) : kind.toU8 = b := by
  unfold GraphDeltaOpKind.fromU8 at h
  split at h <;> cases h <;> rfl

variable {bytes rest : List UInt8} {lo : ℕ}

/-- Reading the identifier that stands at an offset. -/
lemma readUuid_eq {uuid : Uuid} (h : bytes.drop lo = uuid.toBytes ++ rest)
    (hlo : lo ≤ bytes.length) : readUuid bytes lo = .ok uuid := by
  unfold readUuid
  rw [get_eq h hlo uuid.length_toBytes]
  simp only [bind, Except.bind, Uuid.ofBytes_toBytes]
  rfl

/-- What is read as an identifier stands there. -/
lemma ends_readUuid : (readUuid bytes lo).Ends InBounds
      (fun uuid => bytes.drop lo = uuid.toBytes ++ bytes.drop (lo + 16) ∧
        lo + 16 ≤ bytes.length) := by
  unfold readUuid
  apply ends_get.bind
  intro piece hpiece
  cases huuid : Uuid.ofBytes piece with
  | none => exact .error nofun
  | some uuid =>
    refine .ok ⟨?_, hpiece.2.2⟩
    rw [Uuid.toBytes_of_ofBytes huuid]
    exact hpiece.1

/-- A check outside of the bytes stays in bounds. -/
lemma ends_propagate {A : Type} {x : Except GfError A} :
    (propagate x).Ends InBounds (fun a => x = .ok a) := by
  cases x with
  | ok a => exact .ok rfl
  | error e => exact .error nofun

/-! ## One record -/

variable {fileEnd : ℕ} {limits : GraphDeltaJournalLimits} {state : DecodeState} {i : ℕ}

/-- The record that reading a frame adds. -/
def decodedRecord (uuid : Uuid) (i : ℕ) (value : GraphDeltaPayload) : GraphDeltaRecord :=
  ⟨graphDeltaRecordVersion, uuid, i, value.expectedKind, schemaJsonV1, value⟩

/-- A frame at the cursor is read. -/
lemma decodeRecord_eq {uuid : Uuid} {payload : List UInt8} {value : GraphDeltaPayload}
    (h : bytes.drop state.cursor = recordFrame checksum uuid i value.expectedKind payload ++ rest)
    (hend : state.cursor + 37 + payload.length ≤ fileEnd) (hfile : fileEnd ≤ bytes.length)
    (hi : i < 2 ^ 32) (hlength : payload.length < 2 ^ 32)
    (hlimit : payload.length ≤ limits.maxPayloadBytes) (hnew : uuid ∉ state.seenOps)
    (hvalue : GraphDeltaPayload.decode json payload = .ok value) :
    decodeRecord json checksum bytes fileEnd limits state i =
      .ok ⟨state.cursor + 37 + payload.length, state.records ++ [decodedRecord uuid i value],
        uuid :: state.seenOps⟩ := by
  obtain ⟨start, records, seenOps⟩ := state
  simp only at h hend hnew ⊢
  generalize hkind : value.expectedKind = kind at h
  -- what stands at the offset of every field
  have h0 : bytes.drop start = leBytes 2 graphDeltaRecordVersion ++ (uuid.toBytes ++
      (leBytes 4 i ++ ([kind.toU8] ++ (leBytes 2 schemaJsonV1 ++ (leBytes 4 payload.length ++
        (payload ++ (sum8 checksum (recordBytes uuid i kind payload) ++ rest))))))) := by
    rw [h, recordFrame]
    simp [recordBytes]
  have h2 : bytes.drop (start + 2) = _ := drop_after h0 (by simp)
  have h18 : bytes.drop (start + 18) = _ := drop_after h2 (by simp)
  have h22 : bytes.drop (start + 22) = _ := drop_after h18 (by simp)
  have h23 : bytes.drop (start + 23) = _ := drop_after h22 (by simp)
  have h25 : bytes.drop (start + 25) = _ := drop_after h23 (by simp)
  have h29 : bytes.drop (start + 29) = _ := drop_after h25 (by simp)
  have hsum : bytes.drop (start + 29 + payload.length) = _ := drop_after h29 rfl
  have hrecord : bytes.drop start = recordBytes uuid i kind payload ++
      (sum8 checksum (recordBytes uuid i kind payload) ++ rest) := by
    rw [h, recordFrame, append_assoc]
  apply eq_ok_of_ends
  unfold decodeRecord
  simp only
  apply Ends.pass (by omega)
  apply Ends.step (getLe_eq h0 (by omega) (by decide) _)
  apply Ends.step (readUuid_eq h2 (by omega))
  apply Ends.pass hnew
  apply Ends.step (getLe_eq h18 (by omega) hi _)
  apply Ends.pass (fun hne => hne rfl)
  apply Ends.step (index_eq h22)
  apply Ends.step (mapError_eq_ok_iff.mpr (fromU8_toU8 kind))
  apply Ends.step (getLe_eq h23 (by omega) (by decide) _)
  apply Ends.step (getLe_eq h25 (by omega) hlength _)
  apply Ends.pass (by omega)
  apply Ends.pass (by omega)
  apply Ends.step (slice_eq h29 (by omega) rfl)
  apply Ends.step (slice_eq hsum (by omega) (by rw [length_sum8]))
  apply Ends.step (slice_eq hrecord (by omega)
    (by rw [length_recordBytes]; omega))
  apply Ends.pass (fun hne => hne rfl)
  apply Ends.step (mapError_eq_ok_iff.mpr hvalue)
  apply Ends.pass (fun hne => hne hkind)
  refine .ok ?_
  rw [show start + 29 + payload.length + 8 = start + 37 + payload.length by omega,
    decodedRecord, hkind]

/-- Whatever the bytes are, reading a record stays in bounds, and what is read was a frame. -/
lemma ends_decodeRecord (hfile : fileEnd ≤ bytes.length) :
    (decodeRecord json checksum bytes fileEnd limits state i).Ends InBounds (fun next =>
      ∃ uuid payload value, uuid ∉ state.seenOps ∧
        GraphDeltaPayload.decode json payload = .ok value ∧
        bytes.drop state.cursor =
          recordFrame checksum uuid i value.expectedKind payload ++ bytes.drop next.cursor ∧
        next.cursor ≤ fileEnd ∧
        next = ⟨state.cursor + 37 + payload.length, state.records ++ [decodedRecord uuid i value],
          uuid :: state.seenOps⟩) := by
  obtain ⟨start, records, seenOps⟩ := state
  unfold decodeRecord
  simp only
  apply ends_refuse.bind
  intro _ hroom
  apply ends_getLe.bind
  intro version hversion
  apply ends_refuse.bind
  intro _ hversioneq
  apply ends_readUuid.bind
  intro uuid huuid
  apply ends_refuse.bind
  intro _ hnew
  apply ends_getLe.bind
  intro opSequence hsequence
  apply ends_refuse.bind
  intro _ hsequenceeq
  apply (ends_index (by omega)).bind
  intro kindByte hkindbyte
  apply ends_propagate.bind
  intro kind hkind
  apply ends_getLe.bind
  intro schemaId hschema
  apply ends_refuse.bind
  intro _ hschemaeq
  apply ends_getLe.bind
  intro payloadLen hlen
  apply ends_refuse.bind
  intro _ _
  apply ends_refuse.bind
  intro _ hpayloadroom
  apply (ends_slice _ _ (by omega)).bind
  intro payload hpayload
  apply (ends_slice _ _ (by omega)).bind
  intro stored hstored
  have hrecordbounds : start + (29 + payloadLen) ≤ bytes.length := by omega
  rw [Nat.add_assoc start 29 payloadLen]
  apply (ends_slice _ _ hrecordbounds).bind
  intro record hrecord
  apply ends_refuse.bind
  intro _ hsum
  apply ends_propagate.bind
  intro value hvalue
  apply ends_refuse.bind
  intro _ hkindeq
  simp only [not_not] at hversioneq hsequenceeq hschemaeq hsum hkindeq
  subst hversioneq hsequenceeq hschemaeq hkindeq
  -- the fields, put together, are the record
  have hfields : bytes.drop start = recordBytes uuid opSequence value.expectedKind payload ++
      bytes.drop (start + 29 + payloadLen) := by
    rw [hversion.2.1, huuid.1, hsequence.2.1, hkindbyte, ← toU8_of_fromU8 hkind, hschema.2.1,
      hlen.2.1, hpayload.1, recordBytes, hpayload.2]
    simp
  have hwhole : record = recordBytes uuid opSequence value.expectedKind payload := by
    apply append_inj_left (hrecord.1.symm.trans hfields)
    rw [hrecord.2, length_recordBytes, hpayload.2]
  refine .ok ⟨uuid, payload, value, hnew, hvalue, ?_, ?_, ?_⟩
  · rw [recordFrame, hfields, hstored.1, hsum, hwhole, append_assoc, Nat.add_assoc start]
  · show start + (29 + payloadLen) + 8 ≤ fileEnd
    omega
  · rw [hpayload.2, show start + (29 + payloadLen) + 8 = start + 37 + payloadLen by omega]
    rfl

/-! ## All records -/

/-- The frame of a decoded record. -/
def GraphDeltaRecord.frame (checksum : List UInt8 → ℕ) (r : GraphDeltaRecord)
    (payload : List UInt8) : List UInt8 :=
  recordFrame checksum r.operationUuid r.opSequence r.kind payload

/-- The record is what a frame with this payload decodes to. -/
structure GraphDeltaRecord.DecodesFrom (json : Json L) (r : GraphDeltaRecord)
    (payload : List UInt8) : Prop where
  version : r.recordVersion = graphDeltaRecordVersion
  schema : r.schemaId = schemaJsonV1
  kind : r.payload.expectedKind = r.kind
  decodes : GraphDeltaPayload.decode json payload = .ok r.payload

/-- The loop stays in bounds, and the records it adds are the frames it passes. -/
lemma ends_decodeRecords (hfile : fileEnd ≤ bytes.length) (n : ℕ) (hnodup : state.seenOps.Nodup) :
    ((range' i n).foldlM (decodeRecord json checksum bytes fileEnd limits) state).Ends
      InBounds (fun final => ∃ new payloads, final.records = state.records ++ new ∧
        Forall₂ (GraphDeltaRecord.DecodesFrom json) new payloads ∧
        new.map (·.opSequence) = range' i n ∧
        final.seenOps = (new.map (·.operationUuid)).reverse ++ state.seenOps ∧
        final.seenOps.Nodup ∧
        bytes.drop state.cursor = (new.zipWith (·.frame checksum) payloads).flatten ++
          bytes.drop final.cursor) := by
  induction n generalizing i state with
  | zero => exact .ok ⟨[], [], by simp, .nil, rfl, rfl, hnodup, rfl⟩
  | succ n ih =>
    apply (ends_decodeRecord hfile).bind
    intro next hnext
    obtain ⟨uuid, payload, value, hnew, hvalue, hdrop, _, rfl⟩ := hnext
    apply (ih (nodup_cons.mpr ⟨hnew, hnodup⟩)).mono
    intro final hfinal
    obtain ⟨new, payloads, hrecords, hdecodes, hsequences, hseen, hfinalnodup, hrest⟩ := hfinal
    refine ⟨decodedRecord uuid i value :: new, payload :: payloads, ?_, ?_, ?_, ?_, hfinalnodup, ?_⟩
    · rw [hrecords, append_assoc]
      rfl
    · exact .cons ⟨rfl, rfl, rfl, hvalue⟩ hdecodes
    · rw [map_cons, hsequences]
      rfl
    · rw [hseen, map_cons, reverse_cons, append_assoc]
      rfl
    · rw [hdrop, hrest, zipWith_cons_cons, flatten_cons, append_assoc]
      rfl

/-! ## The file -/

/-- A run file without its checksum. -/
def runBody (checksum : List UInt8 → ℕ) (runSequence : ℕ) (runUuid transactionUuid : Uuid)
    (frames : List (List UInt8)) : List UInt8 :=
  runHeader runSequence runUuid transactionUuid frames.length ++
    (sum8 checksum (runHeader runSequence runUuid transactionUuid frames.length) ++ frames.flatten)

lemma length_runBody (runSequence : ℕ) (runUuid transactionUuid : Uuid)
    (frames : List (List UInt8)) :
    (runBody checksum runSequence runUuid transactionUuid frames).length =
      60 + frames.flatten.length := by
  simp [runBody]
  omega

/-- A run file: header, frames and checksum, and nothing else. -/
def runBytes (checksum : List UInt8 → ℕ) (runSequence : ℕ) (runUuid transactionUuid : Uuid)
    (frames : List (List UInt8)) : List UInt8 :=
  runBody checksum runSequence runUuid transactionUuid frames ++
    sum8 checksum (runBody checksum runSequence runUuid transactionUuid frames)

/-- The fields of a header stand at their offsets. -/
structure HeaderAt (bytes : List UInt8) (runSequence : ℕ) (runUuid transactionUuid : Uuid)
    (recordCount : ℕ) : Prop where
  start : bytes.drop 0 = magic ++ bytes.drop 4
  version : bytes.drop 4 = leBytes 4 graphDeltaRunFormatVersion ++ bytes.drop 8
  sequence : bytes.drop 8 = leBytes 8 runSequence ++ bytes.drop 16
  run : bytes.drop 16 = runUuid.toBytes ++ bytes.drop 32
  transaction : bytes.drop 32 = transactionUuid.toBytes ++ bytes.drop 48
  count : bytes.drop 48 = leBytes 4 recordCount ++ bytes.drop 52

variable {runSequence : ℕ} {runUuid transactionUuid : Uuid} {frames : List (List UInt8)}

/-- The fields, put together, are the header. -/
lemma HeaderAt.header {recordCount : ℕ}
    (h : HeaderAt bytes runSequence runUuid transactionUuid recordCount) :
    bytes.drop 0 = runHeader runSequence runUuid transactionUuid recordCount ++ bytes.drop 52 := by
  rw [h.start, h.version, h.sequence, h.run, h.transaction, h.count, runHeader]
  simp

/-- The fields of a header, its checksum and frames stand at their offsets. -/
structure BodyAt (checksum : List UInt8 → ℕ) (bytes : List UInt8) (runSequence : ℕ)
    (runUuid transactionUuid : Uuid) (frames : List (List UInt8)) : Prop
    extends HeaderAt bytes runSequence runUuid transactionUuid frames.length where
  headerSum : bytes.drop 52 =
    sum8 checksum (runHeader runSequence runUuid transactionUuid frames.length) ++ bytes.drop 60
  frames : bytes.drop 60 = frames.flatten ++ bytes.drop (60 + frames.flatten.length)

namespace BodyAt

/-- A body has its fields and frames at their offsets. -/
lemma of_runBody
    (h : bytes = runBody checksum runSequence runUuid transactionUuid frames ++ rest) :
    BodyAt checksum bytes runSequence runUuid transactionUuid frames := by
  have h0 : bytes.drop 0 = magic ++ (leBytes 4 graphDeltaRunFormatVersion ++
      (leBytes 8 runSequence ++ (runUuid.toBytes ++ (transactionUuid.toBytes ++
        (leBytes 4 frames.length ++
          (sum8 checksum (runHeader runSequence runUuid transactionUuid frames.length) ++
            (frames.flatten ++ rest))))))) := by
    rw [drop_zero, h, runBody]
    nth_rewrite 1 [runHeader]
    simp
  have h4 : bytes.drop 4 = _ := drop_after h0 (by simp [magic])
  have h8 : bytes.drop 8 = _ := drop_after h4 (by simp)
  have h16 : bytes.drop 16 = _ := drop_after h8 (by simp)
  have h32 : bytes.drop 32 = _ := drop_after h16 (by simp)
  have h48 : bytes.drop 48 = _ := drop_after h32 (by simp)
  have h52 : bytes.drop 52 = _ := drop_after h48 (by simp)
  have h60 : bytes.drop 60 = _ := drop_after h52 (by simp)
  have hlast : bytes.drop (60 + frames.flatten.length) = _ := drop_after h60 rfl
  exact ⟨⟨h4 ▸ h0, h8 ▸ h4, h16 ▸ h8, h32 ▸ h16, h48 ▸ h32, h52 ▸ h48⟩, h60 ▸ h52, hlast ▸ h60⟩

end BodyAt

/-- A header, the checksum of what stands in its place, frames and the checksum of all before it are
a run file. -/
lemma eq_runBytes {fileEnd : ℕ} {header body : List UInt8}
    (hfields : HeaderAt bytes runSequence runUuid transactionUuid frames.length)
    (hheader : bytes.drop 0 = header ++ bytes.drop 52) (hlength : header.length = 52)
    (hheadersum : bytes.drop 52 = sum8 checksum header ++ bytes.drop 60)
    (hframes : bytes.drop 60 = frames.flatten ++ bytes.drop fileEnd)
    (hbody : bytes.drop 0 = body ++ bytes.drop fileEnd)
    (hfilesum : bytes.drop fileEnd = sum8 checksum body) :
    bytes = runBytes checksum runSequence runUuid transactionUuid frames := by
  have hheadereq : header = runHeader runSequence runUuid transactionUuid frames.length := by
    apply append_inj_left (hheader.symm.trans hfields.header)
    rw [hlength, length_runHeader]
  have hbodyeq : body = runBody checksum runSequence runUuid transactionUuid frames := by
    apply append_cancel_right (hbody.symm.trans _)
    rw [hfields.header, hheadersum, hheadereq, hframes, runBody]
    simp
  rw [runBytes, ← hbodyeq, ← hfilesum]
  exact hbody

/-- The bytes are the file of the run: the declared count and lengths cover every byte, all
checksums match, and no operation repeats. -/
structure GraphDeltaRun.WrittenAs (json : Json L) (checksum : List UInt8 → ℕ)
    (run : GraphDeltaRun) (bytes : List UInt8) : Prop where
  frames : ∃ payloads, Forall₂ (GraphDeltaRecord.DecodesFrom json) run.records payloads ∧
    bytes = runBytes checksum run.runSequence run.runUuid run.transactionUuid
      (run.records.zipWith (·.frame checksum) payloads)
  sequences : run.records.map (·.opSequence) = range run.records.length
  unique : (run.records.map (·.operationUuid)).Nodup
  retained : run.bytes = bytes

/-- Whatever the bytes are, decoding stays in bounds and accepts only run files. -/
lemma ends_decodeDeltaRun (expectedSequence : Option ℕ) :
    (decodeDeltaRun json checksum bytes expectedSequence limits).Ends InBounds
      (fun run => run.WrittenAs json checksum bytes) := by
  unfold decodeDeltaRun
  apply ends_refuse.bind
  intro _ _
  apply ends_refuse.bind
  intro _ hlong
  apply (ends_slice 0 4 (by omega)).bind
  intro start hstart
  apply ends_refuse.bind
  intro _ hmagic
  apply ends_getLe.bind
  intro version hversion
  apply ends_refuse.bind
  intro _ hversioneq
  apply ends_getLe.bind
  intro runSequence hsequence
  apply ends_refuse.bind
  intro _ _
  apply ends_refuse.bind
  intro _ _
  apply ends_readUuid.bind
  intro runUuid hrunuuid
  apply ends_readUuid.bind
  intro transactionUuid htransaction
  apply ends_getLe.bind
  intro recordCount hcount
  apply ends_refuse.bind
  intro _ _
  apply (ends_slice 52 8 (by omega)).bind
  intro storedHeader hstoredheader
  apply (ends_slice 0 52 (by omega)).bind
  intro header hheader
  apply ends_refuse.bind
  intro _ hheadersum
  apply ends_refuse.bind
  intro _ hroom
  obtain ⟨fileEnd, hfileEnd⟩ : ∃ n, bytes.length = n + 8 := ⟨bytes.length - 8, by omega⟩
  rw [hfileEnd]
  apply (ends_slice fileEnd 8 (by omega)).bind
  intro storedFile hstoredfile
  have hbodybounds : 0 + fileEnd ≤ bytes.length := by omega
  have hbody := @ends_slice _ GfError bytes InBounds 0 fileEnd hbodybounds
  rw [Nat.zero_add] at hbody
  apply hbody.bind
  intro body hbody
  apply ends_refuse.bind
  intro _ hfilesum
  rw [range_eq_range']
  apply (ends_decodeRecords (by omega) recordCount nodup_nil).bind
  intro final hfinal
  apply ends_refuse.bind
  intro _ hcursor
  apply ends_refuse.bind
  intro _ hrecordcount
  simp only [not_not] at hmagic hversioneq hheadersum hfilesum hcursor hrecordcount
  obtain ⟨records, payloads, hrecords, hdecodes, hsequences, hseen, hnodup, hframes⟩ := hfinal
  rw [nil_append] at hrecords
  rw [append_nil] at hseen
  rw [hrecords] at hrecordcount
  rw [Nat.add_sub_cancel] at hcursor
  have hlength : (records.zipWith (·.frame checksum) payloads).length = recordCount := by
    rw [length_zipWith, ← hdecodes.length_eq, Nat.min_self, hrecordcount]
  have hlast : bytes.drop fileEnd = storedFile := by
    rw [hstoredfile.1, drop_eq_nil_of_le (by omega), append_nil]
  have hfields : HeaderAt bytes runSequence runUuid transactionUuid recordCount :=
    ⟨hmagic ▸ hstart.1, hversioneq ▸ hversion.2.1, hsequence.2.1, hrunuuid.1, htransaction.1,
      hcount.2.1⟩
  refine .ok ⟨⟨payloads, ?_, ?_⟩, ?_, ?_, rfl⟩
  · rw [hrecords]
    exact hdecodes
  · show bytes = runBytes checksum runSequence runUuid transactionUuid
      (final.records.zipWith (·.frame checksum) payloads)
    rw [hrecords]
    exact eq_runBytes (hlength ▸ hfields) hheader.1 hheader.2 (hheadersum ▸ hstoredheader.1)
      (hcursor ▸ hframes) hbody.1 (hlast.trans hfilesum)
  · show final.records.map _ = _
    rw [hrecords, hsequences, hrecordcount, range_eq_range']
  · rw [hseen, nodup_reverse] at hnodup
    rw [hrecords]
    exact hnodup

/-! ## Round trip -/

/-- The frame that encoding gives an operation. -/
def GraphDeltaOp.frame (checksum : List UInt8 → ℕ) (indexed : GraphDeltaOp × ℕ)
    (payload : List UInt8) : List UInt8 :=
  recordFrame checksum indexed.1.operationUuid indexed.2 indexed.1.kind payload

/-- The payload bytes encode the operation within the limits. -/
structure GraphDeltaOp.EncodesTo (json : Json L) (limits : GraphDeltaJournalLimits)
    (op : GraphDeltaOp) (payload : List UInt8) : Prop where
  encodes : op.payload.encode json = .ok payload
  kind : op.payload.expectedKind = op.kind
  limit : payload.length ≤ limits.maxPayloadBytes
  length : payload.length < 2 ^ 32

/-- Encoding an operation appends its frame. -/
lemma encodeRecord_eq_ok {state final : EncodeState} {indexed : GraphDeltaOp × ℕ}
    (h : encodeRecord json checksum limits state indexed = .ok final) :
    ∃ payload, indexed.1.EncodesTo json limits payload ∧ indexed.1.operationUuid ∉ state.seenOps ∧
      final = ⟨state.body ++ GraphDeltaOp.frame checksum indexed payload,
        indexed.1.operationUuid :: state.seenOps⟩ := by
  unfold encodeRecord at h
  simp only [bind_eq_ok_iff, refuseIf_eq_ok_iff] at h
  obtain ⟨_, hnew, _, hkind, payload, hpayload, _, hlimit, _, _, _, hlength, _, _, hfinal⟩ := h
  refine ⟨payload, ⟨hpayload, not_not.mp hkind, by omega, by omega⟩, hnew, ?_⟩
  exact (Except.ok.inj hfinal).symm

/-- Encoding operations appends their frames, one after the other. -/
lemma encodeRecords_eq_ok {operations : List GraphDeltaOp} {state final : EncodeState}
    (h : (operations.zipIdx i).foldlM (encodeRecord json checksum limits) state = .ok final) :
    ∃ payloads, Forall₂ (GraphDeltaOp.EncodesTo json limits) operations payloads ∧
      final.body = state.body ++
        ((operations.zipIdx i).zipWith (GraphDeltaOp.frame checksum) payloads).flatten ∧
      (operations.map (·.operationUuid)).Nodup ∧
      ∀ op ∈ operations, op.operationUuid ∉ state.seenOps := by
  induction operations generalizing i state with
  | nil =>
    obtain rfl := Except.ok.inj h
    exact ⟨[], .nil, by simp, .nil, by simp⟩
  | cons op operations ih =>
    rw [zipIdx_cons, foldlM_cons, bind_eq_ok_iff] at h
    obtain ⟨next, hnext, hrest⟩ := h
    obtain ⟨payload, hencodes, hnew, rfl⟩ := encodeRecord_eq_ok hnext
    obtain ⟨payloads, hall, hbody, hnodup, hfresh⟩ := ih hrest
    refine ⟨payload :: payloads, .cons hencodes hall, ?_, ?_, ?_⟩
    · rw [hbody, zipIdx_cons, zipWith_cons_cons, flatten_cons, append_assoc]
    · rw [map_cons, nodup_cons]
      refine ⟨?_, hnodup⟩
      intro hmem
      obtain ⟨other, hother, heq⟩ := mem_map.mp hmem
      exact hfresh other hother (heq ▸ mem_cons_self)
    · refine forall_mem_cons.mpr ⟨hnew, fun other hother hmem => ?_⟩
      exact hfresh other hother (mem_cons_of_mem _ hmem)

/-- JSON decodes what it encodes. -/
def Json.RoundTrips (json : Json L) : Prop :=
  ∀ payload bytes, json.toVec payload = .ok bytes → json.fromSlice bytes = .ok payload

/-- A payload is read back from its bytes. -/
lemma decode_of_encode (hjson : json.RoundTrips) {value : GraphDeltaPayload}
    {payload : List UInt8} (h : value.encode json = .ok payload) :
    GraphDeltaPayload.decode json payload = .ok value := by
  unfold GraphDeltaPayload.encode at h
  rw [bind_eq_ok_iff] at h
  obtain ⟨_, hvalid, hvec⟩ := h
  have hslice := hjson value payload (mapError_eq_ok_iff.mp hvec)
  unfold GraphDeltaPayload.decode
  rw [hslice]
  show (value.validateTypedValues json >>= fun _ => pure value) = _
  rw [hvalid]
  rfl

/-- The record an operation decodes to. -/
def GraphDeltaOp.record (indexed : GraphDeltaOp × ℕ) : GraphDeltaRecord :=
  decodedRecord indexed.1.operationUuid indexed.2 indexed.1.payload

/-- Frames at the cursor are read, one after the other. -/
lemma decodeRecords_eq (hjson : json.RoundTrips) {operations : List GraphDeltaOp}
    {payloads : List (List UInt8)}
    (hencodes : Forall₂ (GraphDeltaOp.EncodesTo json limits) operations payloads)
    (hdrop : bytes.drop state.cursor =
      ((operations.zipIdx i).zipWith (GraphDeltaOp.frame checksum) payloads).flatten ++ rest)
    (hend : state.cursor +
      ((operations.zipIdx i).zipWith (GraphDeltaOp.frame checksum) payloads).flatten.length ≤
        fileEnd) (hfile : fileEnd ≤ bytes.length) (hi : i + operations.length ≤ 2 ^ 32)
    (hnodup : (operations.map (·.operationUuid)).Nodup)
    (hfresh : ∀ op ∈ operations, op.operationUuid ∉ state.seenOps) :
    ∃ seenOps, (range' i operations.length).foldlM
      (decodeRecord json checksum bytes fileEnd limits) state = .ok ⟨state.cursor +
          ((operations.zipIdx i).zipWith (GraphDeltaOp.frame checksum) payloads).flatten.length,
          state.records ++ (operations.zipIdx i).map GraphDeltaOp.record, seenOps⟩ := by
  induction hencodes generalizing i state with
  | nil => exact ⟨state.seenOps, by simp [pure, Except.pure]⟩
  | @cons op payload operations payloads hop _ ih =>
    rw [zipIdx_cons, zipWith_cons_cons, flatten_cons] at hdrop hend ⊢
    rw [length_append, GraphDeltaOp.frame, length_recordFrame] at hend
    rw [append_assoc] at hdrop
    rw [length_cons] at hi
    obtain ⟨hfirst, hrest⟩ := nodup_cons.mp hnodup
    have hread := @decodeRecord_eq _ json checksum bytes _ fileEnd limits state i
      op.operationUuid payload op.payload (by rw [hop.kind]; exact hdrop) (by omega) hfile
      (by omega) hop.length hop.limit (hfresh op mem_cons_self)
      (decode_of_encode hjson hop.encodes)
    -- the cursor is now at the next frame
    have hnext : bytes.drop (state.cursor + 37 + payload.length) =
        ((operations.zipIdx (i + 1)).zipWith (GraphDeltaOp.frame checksum) payloads).flatten ++
          rest := by
      apply drop_after hdrop
      rw [GraphDeltaOp.frame, length_recordFrame]
      omega
    have hunseen : ∀ other ∈ operations,
        other.operationUuid ∉ op.operationUuid :: state.seenOps := by
      intro other hother hmem
      rcases mem_cons.mp hmem with heq | hmem
      · exact hfirst (mem_map.mpr ⟨other, hother, heq⟩)
      · exact hfresh other (mem_cons_of_mem op hother) hmem
    obtain ⟨seenOps, hloop⟩ := @ih ⟨state.cursor + 37 + payload.length,
      state.records ++ [GraphDeltaOp.record (op, i)], op.operationUuid :: state.seenOps⟩ (i + 1) hnext
      (by show state.cursor + 37 + payload.length + _ ≤ fileEnd; omega) (by omega) hrest hunseen
    refine ⟨seenOps, ?_⟩
    rw [length_cons, range'_succ, foldlM_cons, hread]
    refine hloop.trans ?_
    rw [map_cons, length_append, GraphDeltaOp.frame, length_recordFrame]
    simp only [append_assoc, cons_append, nil_append, Nat.add_assoc]

/-- A run file is decoded to the run it was made of. -/
lemma decodeDeltaRun_runBytes (hjson : json.RoundTrips) {runSequence : ℕ}
    {runUuid transactionUuid : Uuid} {operations : List GraphDeltaOp}
    {payloads : List (List UInt8)}
    (hencodes : Forall₂ (GraphDeltaOp.EncodesTo json limits) operations payloads)
    (hsequence : runSequence < 2 ^ 64) (hpos : runSequence ≠ 0)
    (hruns : runSequence ≤ limits.maxRuns) (hne : operations ≠ [])
    (hcount : operations.length ≤ limits.maxRecordsPerRun)
    (hcount32 : operations.length < 2 ^ 32)
    (hnodup : (operations.map (·.operationUuid)).Nodup) {frames : List (List UInt8)}
    (hframes : frames = operations.zipIdx.zipWith (GraphDeltaOp.frame checksum) payloads)
    (hbytes : bytes = runBytes checksum runSequence runUuid transactionUuid frames)
    (hlength : bytes.length ≤ limits.maxRunBytes) {expectedSequence : Option ℕ}
    (hexpected : ∀ n ∈ expectedSequence, n = runSequence) :
    decodeDeltaRun json checksum bytes expectedSequence limits =
      .ok ⟨runSequence, runUuid, transactionUuid, operations.zipIdx.map GraphDeltaOp.record,
        bytes⟩ := by
  have hframecount : frames.length = operations.length := by
    rw [hframes, length_zipWith, length_zipIdx, ← hencodes.length_eq, Nat.min_self]
  have hnonempty : 0 < operations.length := length_pos_iff.mpr hne
  have hsome : 0 < frames.flatten.length := by
    cases hencodes with
    | nil => exact absurd rfl hne
    | cons _ _ =>
      rw [hframes, zipIdx_cons, zipWith_cons_cons, flatten_cons,
        length_append, GraphDeltaOp.frame, length_recordFrame]
      omega
  set body := runBody checksum runSequence runUuid transactionUuid frames with hbody
  have hbodysize : body.length = 60 + frames.flatten.length := length_runBody ..
  have hat : BodyAt checksum bytes runSequence runUuid transactionUuid frames :=
    .of_runBody (hbytes.trans (by rw [runBytes]))
  have hbodyat : bytes.drop 0 = body ++ sum8 checksum body := by
    rw [drop_zero, hbytes, runBytes]
  have hlast : bytes.drop (60 + frames.flatten.length) = sum8 checksum body ++ [] := by
    rw [append_nil]
    exact drop_after hbodyat (by omega)
  have hsize : bytes.length = 60 + frames.flatten.length + 8 := by
    rw [hbytes, runBytes, length_append, length_sum8, ← hbody, hbodysize]
  have hcountat := hframecount ▸ hat.count
  have hframesat := hat.frames
  rw [hlast, append_nil] at hframesat
  obtain ⟨seenOps, hloop⟩ := @decodeRecords_eq _ json checksum bytes (sum8 checksum body)
    (60 + frames.flatten.length) limits ⟨60, [], []⟩ 0 hjson operations payloads hencodes
    (by rw [← hframes]; exact hframesat) (by rw [← hframes]) (by omega) (by omega) hnodup (by simp)
  rw [← hframes] at hloop
  apply eq_ok_of_ends
  unfold decodeDeltaRun
  rw [show bytes.length - 8 = 60 + frames.flatten.length by omega]
  apply Ends.pass (by omega)
  apply Ends.pass (by omega)
  apply Ends.step (slice_eq hat.start (by omega) (by rfl))
  apply Ends.step (getLe_eq hat.version (by omega) (by decide) _)
  apply Ends.step (getLe_eq hat.sequence (by omega) hsequence _)
  apply Ends.pass (by
    cases expectedSequence with
    | none => simp
    | some n => simp [hexpected n rfl])
  apply Ends.pass (by omega)
  apply Ends.step (readUuid_eq hat.run (by omega))
  apply Ends.step (readUuid_eq hat.transaction (by omega))
  apply Ends.step (getLe_eq hcountat (by omega) hcount32 _)
  apply Ends.pass (by omega)
  apply Ends.step (slice_eq hat.headerSum (by omega) (by rw [length_sum8]))
  apply Ends.step (slice_eq hat.header (by omega) (by rw [length_runHeader]))
  apply Ends.pass (fun hne => hne rfl)
  apply Ends.pass (by omega)
  apply Ends.step (slice_eq hlast (by omega) (by rw [length_sum8]; omega))
  apply Ends.step (slice_eq hbodyat (by omega) (by omega))
  apply Ends.pass (fun hne => hne rfl)
  apply Ends.step (by rw [range_eq_range']; exact hloop)
  apply Ends.pass (fun hne => hne rfl)
  apply Ends.pass (fun hne => hne (by simp))
  exact .ok (by simp)

/-- The operation a record stands for. -/
def GraphDeltaRecord.toOp (r : GraphDeltaRecord) : GraphDeltaOp :=
  ⟨r.operationUuid, r.kind, r.payload⟩

/-- Records stand for the operations they were made of. -/
lemma map_toOp_record {operations : List GraphDeltaOp} {payloads : List (List UInt8)}
    (hencodes : Forall₂ (GraphDeltaOp.EncodesTo json limits) operations payloads) :
    ((operations.zipIdx i).map GraphDeltaOp.record).map GraphDeltaRecord.toOp = operations := by
  induction hencodes generalizing i with
  | nil => rfl
  | cons hop _ ih =>
    rw [zipIdx_cons, map_cons, map_cons, ih]
    rw [GraphDeltaRecord.toOp, GraphDeltaOp.record, decodedRecord, hop.kind]

end

/-- The codec of delta runs. Decoding the bytes that encoding accepted, under the same limits
and with no expected sequence or the right one, gives back the sequence, the identities and
the operations in order. And whatever the bytes, decoding reads nothing outside of them, and
accepts only bytes that are exactly the header, the declared number of records of the
declared lengths and the checksums, without a repeated operation. -/
theorem deltaRun_codec {L : Type} {json : Json L} (hjson : json.RoundTrips)
    (checksum : List UInt8 → ℕ) (limits : GraphDeltaJournalLimits) :
    (∀ (runSequence : ℕ) (runUuid transactionUuid : Uuid) (operations : List GraphDeltaOp)
      (bytes : List UInt8), runSequence < 2 ^ 64 →
      encodeDeltaRun json checksum runSequence runUuid transactionUuid operations limits =
        .ok bytes →
      ∀ expectedSequence, (∀ n ∈ expectedSequence, n = runSequence) →
        ∃ run, decodeDeltaRun json checksum bytes expectedSequence limits = .ok run ∧
          run.runSequence = runSequence ∧ run.runUuid = runUuid ∧
          run.transactionUuid = transactionUuid ∧ run.records.map (·.toOp) = operations) ∧
    ∀ (bytes : List UInt8) (expectedSequence : Option ℕ),
      decodeDeltaRun json checksum bytes expectedSequence limits ≠ .error .outOfBounds ∧
      ∀ run, decodeDeltaRun json checksum bytes expectedSequence limits = .ok run →
        run.WrittenAs json checksum bytes := by
  refine ⟨?_, ?_⟩
  · intro runSequence runUuid transactionUuid operations bytes hsequence hencode expectedSequence
      hexpected
    unfold encodeDeltaRun at hencode
    simp only [bind_eq_ok_iff, refuseIf_eq_ok_iff] at hencode
    obtain ⟨_, hbounds, _, hne, _, hcount, _, hcount32, final, hrecords, _, hsize, hbytes⟩ :=
      hencode
    obtain ⟨payloads, hencodes, hbody, hnodup, _⟩ := encodeRecords_eq_ok hrecords
    obtain rfl := Except.ok.inj hbytes
    have hlength : (operations.zipIdx.zipWith (GraphDeltaOp.frame checksum) payloads).length =
        operations.length := by
      rw [length_zipWith, length_zipIdx, ← hencodes.length_eq, Nat.min_self]
    have hfinal : final.body = runBody checksum runSequence runUuid transactionUuid
        (operations.zipIdx.zipWith (GraphDeltaOp.frame checksum) payloads) := by
      rw [hbody, runBody, hlength, ← append_assoc]
    have hfile : final.body ++ sum8 checksum final.body = runBytes checksum runSequence runUuid
        transactionUuid (operations.zipIdx.zipWith (GraphDeltaOp.frame checksum) payloads) := by
      rw [runBytes, hfinal]
    refine ⟨_, decodeDeltaRun_runBytes hjson hencodes hsequence (by omega) (by omega) hne
      (by omega) (by omega) hnodup rfl hfile (by omega) hexpected, rfl, rfl, rfl, ?_⟩
    exact map_toOp_record hencodes
  · intro bytes expectedSequence
    have hends := @ends_decodeDeltaRun L json checksum bytes limits expectedSequence
    refine ⟨?_, ?_⟩
    · intro hout
      exact hends.of_error hout rfl
    · intro run hrun
      exact hends.of_ok hrun

/-- The JSON text of the value `7`. -/
def sampleValue : String := "\x7b\"type\":\"Int\",\"value\":7\x7d"

/-- Setting a property, and its JSON text. -/
def sampleSet : GraphDeltaPayload × String :=
  (.setNodeProperty "00000000-0000-0000-0000-000000000001" "person" "age" sampleValue,
    "\x7b\"kind\":\"set_node_property\"" ++
      ",\"node_uuid\":\"00000000-0000-0000-0000-000000000001\"" ++
      ",\"property_stem\":\"person\",\"key\":\"age\"" ++
      ",\"value\":\"\x7b\\\"type\\\":\\\"Int\\\",\\\"value\\\":7\x7d\"\x7d")

/-- Removing a property, and its JSON text. -/
def sampleRemove : GraphDeltaPayload × String :=
  (.removeNodeProperty "00000000-0000-0000-0000-000000000001" "person" "name",
    "\x7b\"kind\":\"remove_node_property\"" ++
      ",\"node_uuid\":\"00000000-0000-0000-0000-000000000001\"" ++
      ",\"property_stem\":\"person\",\"key\":\"name\"\x7d")

/-- JSON on these texts. -/
def sampleJson : Json ℕ where
  toVec payload :=
    if payload = sampleSet.1 then .ok sampleSet.2.toUTF8.data.toList
    else if payload = sampleRemove.1 then .ok sampleRemove.2.toUTF8.data.toList
    else .error "not in the sample"
  fromSlice bytes :=
    if bytes = sampleSet.2.toUTF8.data.toList then .ok sampleSet.1
    else if bytes = sampleRemove.2.toUTF8.data.toList then .ok sampleRemove.1
    else .error "not in the sample"
  literalFromStr text := if text = sampleValue then .ok 7 else .error "not in the sample"

/-- A run that sets one property and removes another. -/
theorem deltaRun_codec_sample :
    let operations : List GraphDeltaOp :=
      [⟨11, .setNodeProperty, sampleSet.1⟩, ⟨12, .removeNodeProperty, sampleRemove.1⟩]
    let limits : GraphDeltaJournalLimits := ⟨64, 16 * 1024 * 1024, 100000, 1024 * 1024⟩
    ∃ bytes run, encodeDeltaRun sampleJson Xxh64.hash 1 5 6 operations limits = .ok bytes ∧
      decodeDeltaRun sampleJson Xxh64.hash bytes (some 1) limits = .ok run ∧
      run.records.map (·.toOp) = operations ∧ run.WrittenAs sampleJson Xxh64.hash bytes := by
  intro operations limits
  have hjson : sampleJson.RoundTrips := by
    intro payload bytes h
    simp only [sampleJson] at h ⊢
    split at h
    next hset =>
      obtain rfl := Except.ok.inj h
      rw [if_pos rfl, hset]
    next =>
      split at h
      next hremove =>
        obtain rfl := Except.ok.inj h
        rw [if_neg (by decide +kernel), if_pos rfl, hremove]
      next => cases h
  have hok : (encodeDeltaRun sampleJson Xxh64.hash 1 5 6 operations limits).isOk = true := by
    decide +kernel
  cases hencode : encodeDeltaRun sampleJson Xxh64.hash 1 5 6 operations limits with
  | error e =>
    rw [hencode] at hok
    cases hok
  | ok bytes =>
    have hcodec := deltaRun_codec hjson Xxh64.hash limits
    obtain ⟨run, hrun, _, _, _, hops⟩ := hcodec.1 1 5 6 operations bytes (by decide) hencode
      (some 1) (by simp)
    exact ⟨bytes, run, rfl, hrun, hops, (hcodec.2 bytes (some 1)).2 run hrun⟩

end GraphForge.DeltaJournal
