import GraphForge.Adjacency.ShardedIndexTheorems
import Mathlib.Data.List.Pairwise

/-!
# Writing, opening and reading a shard set

A shard that Arrow gives back unchanged is admitted by its writer, by opening and by
reading, and a published set of such shards opens.
-/

namespace GraphForge.Adjacency

open List Except

/-! ## Names -/

/-- A name without separators is a single component unless it is empty, `.` or `..`. -/
lemma isNormalPathComponent_of_no_slash {name : List Char} (h : '/' ∉ name)
    (hlen : 2 < name.length) : isNormalPathComponent name = true := by
  match name, hlen with
  | a :: b :: c :: rest, _ =>
    unfold isNormalPathComponent pathComponents
    rw [splitOn_eq_singleton h]
    simp

/-- A decimal digit of a number. -/
def decimalDigit (n i : ℕ) : Char := Char.ofNat (48 + n / 10 ^ i % 10)

lemma decimalDigit_toNat (n i : ℕ) : (decimalDigit n i).toNat = 48 + n / 10 ^ i % 10 := by
  have hlt : n / 10 ^ i % 10 < 10 := Nat.mod_lt _ (by decide)
  unfold decimalDigit
  generalize n / 10 ^ i % 10 = d at hlt
  interval_cases d <;> rfl

lemma slash_not_mem_shardFileName (ordinal : ℕ) : '/' ∉ shardFileName ordinal := by
  intro h
  rcases mem_append.mp h with h | h
  · obtain ⟨i, _, hi⟩ := mem_map.mp h
    have := decimalDigit_toNat ordinal i
    rw [show decimalDigit ordinal i = '/' from hi] at this
    have hslash : ('/' : Char).toNat = 47 := rfl
    omega
  · revert h
    decide

/-- Numbers below `10 ^ k` with the same digits are the same. -/
lemma eq_of_digits {m n k : ℕ} (h : ∀ i < k, m / 10 ^ i % 10 = n / 10 ^ i % 10) :
    m % 10 ^ k = n % 10 ^ k := by
  induction k with
  | zero => simp [Nat.mod_one]
  | succ k ih =>
    rw [Nat.mod_pow_succ, Nat.mod_pow_succ, ih fun i hi => h i (by omega), h k (by omega)]

lemma shardFileName_inj {m n : ℕ} (hm : m < 10 ^ 20) (hn : n < 10 ^ 20)
    (h : shardFileName m = shardFileName n) : m = n := by
  have hdigits := append_cancel_right h
  have heq : m % 10 ^ 20 = n % 10 ^ 20 := by
    apply eq_of_digits
    intro i hi
    have hmem : i ∈ (range 20).reverse := by simpa using hi
    have hsame := map_inj_left.mp hdigits i hmem
    have := congrArg Char.toNat hsame
    have hm' := decimalDigit_toNat m i
    have hn' := decimalDigit_toNat n i
    unfold decimalDigit at hm' hn'
    omega
  rwa [Nat.mod_eq_of_lt hm, Nat.mod_eq_of_lt hn] at heq

/-! ## One shard -/

/-- The indexes a shard file is made for: valid, of bounded size, of `u64` values. -/
structure CsrIndex.Storable (csr : CsrIndex) : Prop where
  valid : csr.validate = .ok ()
  nodes : csr.nodeCount ≤ defaultCsrShardNodes
  edges : csr.edgeCount ≤ defaultCsrShardEdges
  edgeIds : ∀ n ∈ csr.edgeIds, n < 2 ^ 64
  neighborIds : ∀ n ∈ csr.neighborIds, n < 2 ^ 64

/-- The decoded size of a shard. -/
def decodedSize (nodes edges : ℕ) : ℕ :=
  [divCeil8 nodes, 8 * (nodes + 1), divCeil8 edges, divCeil8 edges, 8 * edges,
    divCeil8 edges, 8 * edges].sum

/-- Arrow gives a stored shard back: its file stays within the admitted length, passes the
preflight and decodes to the shard. -/
structure ShardCodec.Faithful (codec : ShardCodec) : Prop where
  length_le : ∀ csr : CsrIndex, csr.Storable →
    (codec.encode csr).length ≤ decodedSize csr.nodeCount csr.edgeCount + metadataMaxBytes
  preflight : ∀ csr : CsrIndex, csr.Storable →
    codec.preflight (codec.encode csr) csr.nodeCount csr.edgeCount = .ok ()
  decode : ∀ csr : CsrIndex, csr.Storable → codec.decode (codec.encode csr) = .ok csr

section
variable {nodes edges : ℕ} (hnodes : nodes ≤ defaultCsrShardNodes)
  (hedges : edges ≤ defaultCsrShardEdges)
include hnodes hedges

lemma decodedBytes_eq : decodedBytes nodes edges = .ok (decodedSize nodes edges) := by
  unfold decodedBytes bufferLengths
  rw [if_neg (by omega)]
  rfl

lemma encodedLimit_eq :
    encodedLimit nodes edges = .ok (decodedSize nodes edges + metadataMaxBytes) := by
  unfold encodedLimit
  rw [decodedBytes_eq hnodes hedges]
  rfl

end

section
variable (codec : ShardCodec)

/-- The record of a shard. -/
def shardRecord (ordinal first : ℕ) (shard : CsrIndex) : CsrShardRecord where
  firstNode := first
  nodeCount := shard.nodeCount
  edgeCount := shard.edgeCount
  file := shardFileName ordinal
  sha256 := hexText (codec.sha256 (codec.encode shard)).val
  xxh64 := codec.checksum (codec.encode shard)
  encodedBytes := (codec.encode shard).length
  decodedBytes := decodedSize shard.nodeCount shard.edgeCount

variable {codec} (hcodec : codec.Faithful) {shard : CsrIndex} (hshard : shard.Storable)
include hcodec hshard

lemma writeCsrShard_eq (ordinal first : ℕ) : writeCsrShard codec ordinal first shard =
      .ok (shardRecord codec ordinal first shard, codec.encode shard) := by
  have hlen := hcodec.length_le shard hshard
  have hadmit : admitEncodedLen (codec.encode shard).length shard.nodeCount shard.edgeCount =
      .ok () := by
    unfold admitEncodedLen
    rw [encodedLimit_eq hshard.nodes hshard.edges]
    show refuseIf _ _ = _
    rw [refuseIf, if_neg (by omega)]
  unfold writeCsrShard
  rw [hshard.valid, decodedBytes_eq hshard.nodes hshard.edges]
  simp only [bind, Except.bind, hadmit, hcodec.preflight shard hshard]
  rfl

lemma readAuthenticatedShard_shardRecord {dir : Directory} {ordinal : ℕ} (first : ℕ)
    (hdir : dir (shardFileName ordinal) = .ok (codec.encode shard)) :
    readAuthenticatedShard codec dir (shardRecord codec ordinal first shard) = .ok shard := by
  have hlen := hcodec.length_le shard hshard
  have hfile : readShardFile dir (shardRecord codec ordinal first shard).file
      (codec.encode shard).length (decodedSize shard.nodeCount shard.edgeCount + metadataMaxBytes) =
        .ok (codec.encode shard) := by
    unfold readShardFile
    simp only [shardRecord, hdir, refuseIf]
    rw [if_neg (by omega)]
    simp [bind, Except.bind, Except.mapError, pure, Except.pure]
  unfold readAuthenticatedShard
  simp only [shardRecord] at hfile ⊢
  rw [decodedBytes_eq hshard.nodes hshard.edges, encodedLimit_eq hshard.nodes hshard.edges]
  simp only [Except.mapError, bind, Except.bind, refuseIf, hfile,
    hcodec.preflight shard hshard, hcodec.decode shard hshard, hshard.valid]
  simp [pure, Except.pure]

end

/-! ## A faithful codec -/

/-- Little-endian `u64` words. -/
def words (ns : List ℕ) : List UInt8 := ns.flatMap (Bytes.leBytes 8)

/-- The words in bytes. -/
def ofWords (bs : List UInt8) : List ℕ := (bs.chunks 8).map Bytes.ofLeBytes

lemma ofWords_words {ns : List ℕ} (h : ∀ n ∈ ns, n < 2 ^ 64) : ofWords (words ns) = ns := by
  induction ns with
  | nil => rfl
  | cons n ns ih =>
    have hn : Bytes.ofLeBytes (Bytes.leBytes 8 n) = n :=
      Bytes.ofLeBytes_leBytes (h n mem_cons_self)
    have hrest := ih fun m hm => h m (mem_cons_of_mem n hm)
    unfold ofWords words at hrest ⊢
    rw [flatMap_cons, chunks_append (by decide) (Bytes.length_leBytes 8 n), map_cons, hn, hrest]

lemma length_words (ns : List ℕ) : (words ns).length = 8 * ns.length := by
  induction ns with
  | nil => rfl
  | cons n ns ih =>
    rw [words, flatMap_cons, length_append, Bytes.length_leBytes, length_cons]
    rw [words] at ih
    omega

/-- The three columns of a shard as words behind their lengths. -/
def wordCodec (checksum : List UInt8 → ℕ) (sha256 : List UInt8 → Digest) : ShardCodec where
  encode csr := words (csr.offsets.length :: csr.edgeIds.length ::
    (csr.offsets ++ csr.edgeIds ++ csr.neighborIds))
  preflight bytes nodes edges := refuseIf
    (bytes.length ≠ 8 * (nodes + 3 + 2 * edges)) invalidEncoding
  decode bytes :=
    match ofWords bytes with
    | offsets :: edges :: columns =>
      .ok ⟨columns.take offsets, (columns.drop offsets).take edges, columns.drop (offsets + edges)⟩
    | _ => .error "truncated shard"
  checksum := checksum
  sha256 := sha256

/-- Valid offsets are at most the number of entries. -/
lemma offsets_le_of_validate {csr : CsrIndex} (h : csr.validate = .ok ()) :
    csr.offsets ≠ [] ∧ csr.neighborIds.length = csr.edgeIds.length ∧
      ∀ n ∈ csr.offsets, n ≤ csr.edgeCount := by
  unfold CsrIndex.validate at h
  simp only [bind_eq_ok_iff, refuseIf_eq_ok_iff, not_or, not_not] at h
  obtain ⟨_, hhead, _, hchain, hlast, hlength⟩ := h
  have hne : csr.offsets ≠ [] := by
    intro hnil
    rw [hnil] at hhead
    cases hhead
  refine ⟨hne, hlength.symm, ?_⟩
  intro n hn
  rw [← hlast, getLastD_eq_getLast?, getLast?_eq_some_getLast hne, Option.getD_some]
  exact (isChain_iff_pairwise.mp hchain).rel_getLast hn

/-- Files of words keep what they store. -/
lemma faithful_wordCodec (checksum : List UInt8 → ℕ) (sha256 : List UInt8 → Digest) :
    (wordCodec checksum sha256).Faithful where
  length_le csr hcsr := by
    obtain ⟨hne, hlength, _⟩ := offsets_le_of_validate hcsr.valid
    have hpos := length_pos_iff.mpr hne
    show (words _).length ≤ _
    rw [length_words]
    simp only [length_cons, length_append, decodedSize, sum_cons, sum_nil,
      CsrIndex.nodeCount, CsrIndex.edgeCount, metadataMaxBytes]
    omega
  preflight csr hcsr := by
    obtain ⟨hne, hlength, _⟩ := offsets_le_of_validate hcsr.valid
    have hpos := length_pos_iff.mpr hne
    show refuseIf _ _ = _
    rw [refuseIf_eq_ok_iff, not_not]
    show (words _).length = _
    rw [length_words]
    simp only [length_cons, length_append, CsrIndex.nodeCount, CsrIndex.edgeCount]
    omega
  decode csr hcsr := by
    obtain ⟨_, hlength, hoffsets⟩ := offsets_le_of_validate hcsr.valid
    have hnodes := hcsr.nodes
    have hedges := hcsr.edges
    have hlimits : defaultCsrShardNodes < 2 ^ 32 ∧ defaultCsrShardEdges < 2 ^ 32 := by decide
    simp only [CsrIndex.nodeCount, CsrIndex.edgeCount] at hnodes hedges hoffsets
    have hwords : ofWords (words (csr.offsets.length :: csr.edgeIds.length ::
        (csr.offsets ++ csr.edgeIds ++ csr.neighborIds))) = csr.offsets.length ::
          csr.edgeIds.length :: (csr.offsets ++ csr.edgeIds ++ csr.neighborIds) := by
      apply ofWords_words
      intro n hn
      simp only [mem_cons, mem_append] at hn
      rcases hn with rfl | rfl | (hn | hn) | hn
      · omega
      · omega
      · have := hoffsets n hn
        omega
      · exact hcsr.edgeIds n hn
      · exact hcsr.neighborIds n hn
    simp only [wordCodec]
    rw [hwords]
    simp [drop_append, drop_eq_nil_of_le]

end GraphForge.Adjacency
